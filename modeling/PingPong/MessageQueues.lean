import PingPong.SemaphoreBalance
import PingPong.TaskConservation

/-! One message queue and any number of senders and receivers that may be switched between
   their semaphore calls and buffer operations. The three counters record how many calls
   have reserved a place, announced a message, or hold the buffer. -/
namespace MessageQueues
open MachineModel CircularList QueueModel KernelModel KernelEffects TaskPlacement SystemModel
open SystemFrames TransitionRuns FiniteTally SemaphoreBalance TaskConservation DispatcherTurns
variable {N : Type} [DecidableEq N] [Fintype N]

section Shares

/-- Stored and not announced yet, or announced and not taken yet. -/
def itemShare (q : Nat) : Ctl N → Int
  | .send p _ .upBuffer | .send p _ .upItem => if p = q then 1 else 0
  | .recv p _ .buffer | .recv p _ .check | .recv p _ .take => if p = q then 1 else 0
  | _ => 0

/-- A place reserved and not filled yet, or emptied and not given back yet. -/
def vagaShare (q : Nat) : Ctl N → Int
  | .send p _ .buffer | .send p _ .check | .send p _ .store => if p = q then 1 else 0
  | .recv p _ .upBuffer | .recv p _ .upVaga => if p = q then 1 else 0
  | _ => 0

/-- Between sem_down and sem_up of s_buffer. -/
def bufferShare (q : Nat) : Ctl N → Int
  | .send p _ .check | .send p _ .store | .send p _ .upBuffer => if p = q then 1 else 0
  | .recv p _ .check | .recv p _ .take | .recv p _ .upBuffer => if p = q then 1 else 0
  | _ => 0

omit [DecidableEq N] [Fintype N] in
theorem itemShare_off {q : Nat} {c : Ctl N} (off : ctlClient c ≠ .queue q) :
    itemShare q c = 0 := by
  unfold itemShare
  split <;> simp_all [ctlClient]

omit [DecidableEq N] [Fintype N] in
theorem vagaShare_off {q : Nat} {c : Ctl N} (off : ctlClient c ≠ .queue q) :
    vagaShare q c = 0 := by
  unfold vagaShare
  split <;> simp_all [ctlClient]

omit [DecidableEq N] [Fintype N] in
theorem bufferShare_off {q : Nat} {c : Ctl N} (off : ctlClient c ≠ .queue q) :
    bufferShare q c = 0 := by
  unfold bufferShare
  split <;> simp_all [ctlClient]

omit [DecidableEq N] [Fintype N] in
theorem itemShare_nonneg (q : Nat) (c : Ctl N) : 0 ≤ itemShare q c := by
  unfold itemShare
  split <;> (try split) <;> simp

omit [DecidableEq N] [Fintype N] in
theorem vagaShare_nonneg (q : Nat) (c : Ctl N) : 0 ≤ vagaShare q c := by
  unfold vagaShare
  split <;> (try split) <;> simp

omit [DecidableEq N] [Fintype N] in
theorem bufferShare_nonneg (q : Nat) (c : Ctl N) : 0 ≤ bufferShare q c := by
  unfold bufferShare
  split <;> (try split) <;> simp

end Shares

def buffer (q : Nat) (s : System N) : List (List UInt8) := (s.mqueue q).buffer

def count (a : SemAddr) (s : System N) : Int := (s.kernel.sem a).value

abbrev waiting (a : SemAddr) (s : System N) : List (Tcb N) := tasks s.kernel (.semQueue a)

/-- A queue just initialised, in storage whose locks are 0; nobody uses it yet. -/
structure Fresh (q : Nat) (max size : Int) (s : System N) : Prop where
  conserved : Conserved s
  mqueue : s.mqueue q = ⟨[], max, size, 1⟩
  sBuffer : s.kernel.sem (.sBuffer q) = ⟨1, 0, 1⟩
  sItem : s.kernel.sem (.sItem q) = ⟨0, 0, 1⟩
  sVaga : s.kernel.sem (.sVaga q) = ⟨max, 0, 1⟩
  room : 1 ≤ max
  isInt : max ≤ intMax
  noWaiters : ∀ a, semClient a = .queue q → waiting a s = []
  outside : ∀ t, ctlClient (s.ctl t) ≠ .queue q
  sent : s.history.sent q = []
  received : s.history.received q = []

/-- The queue is not initialised or destroyed again. -/
def Spares (q : Nat) : Label N → Prop
  | .call (.mqueueInit (some p) _ _) | .call (.mqueueDestroy (some p)) => p ≠ q
  | _ => True

def Allocates : Label N → Prop
  | .run malloc₁ malloc₂ => malloc₁ = true ∧ malloc₂ = true
  | _ => True

/-- The two allocations of a message for this queue succeed. -/
def Stores (q : Nat) (s : System N) : Label N → Prop
  | .run malloc₁ malloc₂ => match s.ctl s.curr with
      | .send p _ .store => p = q → malloc₁ = true ∧ malloc₂ = true
      | _ => True
  | _ => True

/-- No counter is decremented below the least int. -/
def CounterFits (q : Nat) (s : System N) : Label N → Prop
  | .run _ _ => match s.ctl s.curr with
      | .send p _ .vaga => p = q → intMin < count (.sVaga q) s
      | .send p _ .buffer | .recv p _ .buffer => p = q → intMin < count (.sBuffer q) s
      | .recv p _ .item => p = q → intMin < count (.sItem q) s
      | _ => True
  | _ => True

instance (q : Nat) (l : Label N) : Decidable (Spares q l) := by
  unfold Spares
  rcases l with _ | _ | c | _ <;> try infer_instance
  rcases c with _ | _ <;> try infer_instance
  case mqueueInit o _ _ | mqueueDestroy o => rcases o with _ | _ <;> infer_instance

instance (q : Nat) (s : System N) (l : Label N) : Decidable (Stores q s l) := by
  unfold Stores
  generalize s.ctl s.curr = c
  rcases l with _ | _ | _ | _ <;> try infer_instance
  rcases c with _ | _ <;> try infer_instance
  case send point => rcases point with _ | _ <;> infer_instance

omit [Fintype N] [DecidableEq N] in
theorem allocates_stores {q : Nat} {s : System N} {l : Label N} (allocates : Allocates l) :
    Stores q s l := by
  unfold Stores
  split
  · split
    · exact fun _ => allocates
    · trivial
  · trivial

instance (l : Label N) : Decidable (Allocates l) := by
  unfold Allocates
  rcases l with _ | _ | _ | _ <;> infer_instance

instance (q : Nat) (s : System N) (l : Label N) : Decidable (CounterFits q s l) := by
  unfold CounterFits
  generalize s.ctl s.curr = c
  rcases l with _ | _ | _ | _ <;> try infer_instance
  rcases c with _ | _ <;> try infer_instance
  case send point | recv point => rcases point with _ | _ <;> infer_instance

def Interleaves (q : Nat) (s : System N) (l : Label N) (s' : System N) : Prop :=
  step s l = some (.ok s') ∧ Permitted s l ∧ Spares q l ∧ Allocates l

/-- Where everything about the queue stands. -/
structure Delivery (q : Nat) (max size : Int) (s : System N) : Prop where
  conserved : Conserved s
  isInt : max ≤ intMax
  active : (s.mqueue q).active ≠ 0
  msgSize : (s.mqueue q).msgSize = size
  notDestroyed : ∀ t point, s.ctl t ≠ .destroy q point
  balanced : ∀ a, semClient a = .queue q → Balanced s.kernel a
  range : ∀ a, semClient a = .queue q → intMin ≤ count a s ∧ count a s ≤ intMax
  itemWaits : ∀ t ∈ waiting (.sItem q) s, ∃ a, s.ctl t = .recv q a .buffer
  vagaWaits : ∀ t ∈ waiting (.sVaga q) s, ∃ a, s.ctl t = .send q a .buffer
  item : count (.sItem q) s = (buffer q s).length - total (itemShare q) s
  vaga : count (.sVaga q) s = max - (buffer q s).length - total (vagaShare q) s
  held : count (.sBuffer q) s = 1 - total (bufferShare q) s
  bytes : ∀ msg ∈ buffer q s, msg.length = sizeOfInt size
  order : s.history.sent q = s.history.received q ++ buffer q s

section Start
variable {q : Nat} {max size : Int} {s s' : System N}

theorem queue_sems {a : SemAddr} (mine : semClient a = .queue q) :
    a = .sBuffer q ∨ a = .sItem q ∨ a = .sVaga q := by
  cases a <;> simp_all [semClient]

theorem fresh_delivery (fresh : Fresh q max size s) : Delivery q max size s := by
  have none : ∀ {w : Ctl N → Int}, (∀ c, ctlClient c ≠ .queue q → w c = 0) →
      total w s = 0 := fun off => tally_zero fun t => off _ (fresh.outside t)
  have room := fresh.room
  have isInt := fresh.isInt
  have empty : buffer q s = [] := by rw [buffer, fresh.mqueue]
  have sem : ∀ a, semClient a = .queue q → (s.kernel.sem a).active ≠ 0 ∧
      (s.kernel.sem a).lock = 0 ∧ 0 ≤ (s.kernel.sem a).value ∧
      (s.kernel.sem a).value ≤ intMax := by
    intro a mine
    rcases queue_sems mine with rfl | rfl | rfl
    · rw [fresh.sBuffer]; decide
    · rw [fresh.sItem]; decide
    · rw [fresh.sVaga]; exact ⟨by simp, rfl, by dsimp only; omega, isInt⟩
  refine ⟨fresh.conserved, isInt, by rw [fresh.mqueue]; simp, by rw [fresh.mqueue], ?_, ?_, ?_,
    ?_, ?_,
    ?_, ?_, ?_, ?_, ?_⟩
  · intro t point here
    exact fresh.outside t (by rw [here]; rfl)
  · intro a mine
    obtain ⟨active, free, nonneg, _⟩ := sem a mine
    have lists : tasks s.kernel (.semQueue a) = [] := fresh.noWaiters a mine
    refine ⟨active, free, ?_⟩
    rw [lists, List.length_nil]
    omega
  · intro a mine
    obtain ⟨_, _, nonneg, high⟩ := sem a mine
    exact ⟨by simp only [count, intMin]; omega, high⟩
  · rw [fresh.noWaiters _ rfl]
    intro t mem
    cases mem
  · rw [fresh.noWaiters _ rfl]
    intro t mem
    cases mem
  · rw [none (fun _ => itemShare_off), empty, count, fresh.sItem]
    rfl
  · rw [none (fun _ => vagaShare_off), empty, count, fresh.sVaga]
    simp
  · rw [none (fun _ => bufferShare_off), count, fresh.sBuffer]
    rfl
  · rw [empty]
    intro msg mem
    cases mem
  · rw [fresh.sent, fresh.received, empty]
    rfl

theorem delivery_framed (d : Delivery q max size s) (conserved : Conserved s')
    (framed : Framed (.queue q) s s') : Delivery q max size s' := by
  have data : QueueData q s s' := framed.data
  have lists : ∀ a, semClient a = .queue q → waiting a s' = waiting a s :=
    fun a mine => framed.lists (.semQueue a) (by simp) mine
  have counts : ∀ a, semClient a = .queue q → count a s' = count a s :=
    fun a mine => by rw [count, framed.sem a mine]; rfl
  have stays : ∀ t c, s.ctl t = c → ctlClient c = .queue q → s'.ctl t = c := by
    intro t c here mine
    rcases framed.ctl t with same | ⟨before, _⟩
    · rw [same, here]
    · exact absurd (by rw [here]; exact mine) before
  have same : buffer q s' = buffer q s := by rw [buffer, data.mqueue]; rfl
  refine ⟨conserved, d.isInt, by rw [data.mqueue]; exact d.active,
    by rw [data.mqueue]; exact d.msgSize,
    ?_, ?_, ?_, ?_, ?_, ?_, ?_, ?_, by rw [same]; exact d.bytes, ?_⟩
  · intro t point here
    rcases framed.ctl t with same | ⟨_, after⟩
    · exact d.notDestroyed t point (by rw [← same]; exact here)
    · exact after (by rw [here]; rfl)
  · intro a mine
    have before := d.balanced a mine
    have queue : tasks s'.kernel (.semQueue a) = tasks s.kernel (.semQueue a) := lists a mine
    refine ⟨?_, ?_, ?_⟩
    · rw [framed.sem a mine]; exact before.active
    · rw [framed.sem a mine]; exact before.free
    · rw [framed.sem a mine, queue]; exact before.waiters
  · intro a mine
    rw [counts a mine]
    exact d.range a mine
  · rw [lists _ rfl]
    intro t mem
    obtain ⟨a, here⟩ := d.itemWaits t mem
    exact ⟨a, stays t _ here rfl⟩
  · rw [lists _ rfl]
    intro t mem
    obtain ⟨a, here⟩ := d.vagaWaits t mem
    exact ⟨a, stays t _ here rfl⟩
  · rw [counts _ rfl, same, total_framed (fun _ => itemShare_off) framed]
    exact d.item
  · rw [counts _ rfl, same, total_framed (fun _ => vagaShare_off) framed]
    exact d.vaga
  · rw [counts _ rfl, total_framed (fun _ => bufferShare_off) framed]
    exact d.held
  · rw [data.sent, data.received, same]
    exact d.order

end Start

section Steps
variable {q : Nat} {max size : Int} {s s' : System N}

theorem delivery_entry (d : Delivery q max size s) (conserved : Conserved s') {old new : Ctl N}
    (here : s.ctl s.curr = old) (ctl : s'.ctl = Function.update s.ctl s.curr new)
    (active : (s'.mqueue q).active = (s.mqueue q).active)
    (msgSize : (s'.mqueue q).msgSize = (s.mqueue q).msgSize)
    (notDestroyed : ∀ point, new ≠ .destroy q point)
    (balanced : ∀ a, semClient a = .queue q → Balanced s'.kernel a)
    (range : ∀ a, semClient a = .queue q → intMin ≤ count a s' ∧ count a s' ≤ intMax)
    (itemWaits : ∀ t ∈ waiting (.sItem q) s', t ∈ waiting (.sItem q) s ∨
      t = s.curr ∧ ∃ a, new = .recv q a .buffer)
    (vagaWaits : ∀ t ∈ waiting (.sVaga q) s', t ∈ waiting (.sVaga q) s ∨
      t = s.curr ∧ ∃ a, new = .send q a .buffer)
    (item : count (.sItem q) s' + itemShare q new - (buffer q s').length =
      count (.sItem q) s + itemShare q old - (buffer q s).length)
    (vaga : count (.sVaga q) s' + vagaShare q new + (buffer q s').length =
      count (.sVaga q) s + vagaShare q old + (buffer q s).length)
    (held : count (.sBuffer q) s' + bufferShare q new = count (.sBuffer q) s + bufferShare q old)
    (bytes : ∀ msg ∈ buffer q s', msg.length = sizeOfInt size)
    (order : s'.history.sent q = s'.history.received q ++ buffer q s') :
    Delivery q max size s' := by
  subst here
  -- nobody who waits is the running task
  have stays : ∀ {a t}, t ∈ waiting a s → s'.ctl t = s.ctl t := by
    intro a t mem
    have other : t ≠ s.curr := by
      rintro rfl
      exact current_nowhere_else d.conserved.placed (by simp) mem
    rw [ctl, Function.update_of_ne other]
  refine ⟨conserved, d.isInt, by rw [active]; exact d.active, msgSize.trans d.msgSize, ?_,
    balanced, range,
    ?_, ?_, ?_, ?_, ?_, bytes, order⟩
  · intro t point
    rw [ctl, Function.update_apply]
    split
    · exact notDestroyed point
    · exact d.notDestroyed t point
  · intro t mem
    rcases itemWaits t mem with old | ⟨rfl, a, rfl⟩
    · rw [stays old]
      exact d.itemWaits t old
    · exact ⟨a, by rw [ctl, Function.update_self]⟩
  · intro t mem
    rcases vagaWaits t mem with old | ⟨rfl, a, rfl⟩
    · rw [stays old]
      exact d.vagaWaits t old
    · exact ⟨a, by rw [ctl, Function.update_self]⟩
  · have before := d.item
    rw [total_update _ ctl]
    omega
  · have before := d.vaga
    rw [total_update _ ctl]
    omega
  · have before := d.held
    rw [total_update _ ctl]
    omega

theorem delivery_local (d : Delivery q max size s) (conserved : Conserved s') {old new : Ctl N}
    (here : s.ctl s.curr = old) (ctl : s'.ctl = Function.update s.ctl s.curr new)
    (kernel : s'.kernel = s.kernel) (active : (s'.mqueue q).active = (s.mqueue q).active)
    (msgSize : (s'.mqueue q).msgSize = (s.mqueue q).msgSize)
    (notDestroyed : ∀ point, new ≠ .destroy q point)
    (item : itemShare q new - (buffer q s').length = itemShare q old - (buffer q s).length)
    (vaga : vagaShare q new + (buffer q s').length = vagaShare q old + (buffer q s).length)
    (held : bufferShare q new = bufferShare q old)
    (bytes : ∀ msg ∈ buffer q s', msg.length = sizeOfInt size)
    (order : s'.history.sent q = s'.history.received q ++ buffer q s') :
    Delivery q max size s' := by
  have counts : ∀ a, count a s' = count a s := fun a => by rw [count, kernel]; rfl
  refine delivery_entry d conserved here ctl active msgSize notDestroyed ?_ ?_ ?_ ?_ ?_ ?_ ?_ bytes
    order
  · rw [kernel]; exact d.balanced
  · intro a mine
    rw [counts]; exact d.range a mine
  · rw [waiting, kernel]; exact fun t mem => Or.inl mem
  · rw [waiting, kernel]; exact fun t mem => Or.inl mem
  · rw [counts]; omega
  · rw [counts]; omega
  · rw [counts, held]

theorem delivery_move (d : Delivery q max size s) {old new : Ctl N}
    (conserved : Conserved (s.goto s.curr new)) (here : s.ctl s.curr = old)
    (notDestroyed : ∀ point, new ≠ .destroy q point)
    (item : itemShare q new = itemShare q old) (vaga : vagaShare q new = vagaShare q old)
    (held : bufferShare q new = bufferShare q old) :
    Delivery q max size (s.goto s.curr new) :=
  delivery_local d conserved here rfl rfl rfl rfl notDestroyed
    (by rw [item]; rfl) (by rw [vaga]; rfl) held d.bytes d.order

theorem delivery_down (d : Delivery q max size s) {old new : Ctl N} {a : SemAddr}
    (here : s.ctl s.curr = old) (mine : semClient a = .queue q) (low : intMin < count a s)
    (user : role old ≠ .dispatcher) (notDestroyed : ∀ point, new ≠ .destroy q point)
    (itemWaits : a = .sItem q → ∃ m, new = .recv q m .buffer)
    (vagaWaits : a = .sVaga q → ∃ m, new = .send q m .buffer)
    (item : itemShare q new = itemShare q old + if a = .sItem q then 1 else 0)
    (vaga : vagaShare q new = vagaShare q old + if a = .sVaga q then 1 else 0)
    (held : bufferShare q new = bufferShare q old + if a = .sBuffer q then 1 else 0)
    (run : (semDown s.kernel (some a)).map (fun x => (s.withKernel x.1).goto s.curr new) =
      .ok s') (conserved : Conserved s') : Delivery q max size s' := by
  obtain ⟨⟨k, r⟩, down, rfl⟩ := map_ok run
  have user' : s.kernel.curr ≠ .dispatcherTask :=
    not_dispatcher d.conserved (t := s.curr) (by rw [here]; exact user)
  obtain ⟨kept, balanced, value, queue⟩ := balanced_down d.conserved.placed user'
    (d.balanced a mine) low (d.range a mine).2 down
  have counts : ∀ b, count b ((s.withKernel k).goto s.curr new) =
      count b s - if b = a then 1 else 0 := by
    intro b
    by_cases same : b = a
    · subst same
      rw [if_pos rfl]
      exact value
    · rw [if_neg same]
      exact (congrArg Semaphore.value (kept.sem b (by simpa using same))).trans (by simp [count])
  have lists : ∀ b, b ≠ a → waiting b ((s.withKernel k).goto s.curr new) = waiting b s :=
    fun b other => kept.lists (.semQueue b) (by simp) (by simpa using other)
  refine delivery_entry d conserved here rfl rfl rfl notDestroyed ?_ ?_ ?_ ?_ ?_ ?_ ?_ d.bytes
    d.order
  · intro b other
    by_cases same : b = a
    · subst same; exact balanced
    · exact balanced_kept (d.balanced b other) kept (by simpa using same) (by simpa using same)
  · intro b other
    have before := d.range b other
    rw [counts]
    by_cases same : b = a
    · subst same
      rw [if_pos rfl]
      exact ⟨by omega, by omega⟩
    · rw [if_neg same]
      exact ⟨by omega, by omega⟩
  · intro t mem
    by_cases same : .sItem q = a
    · subst same
      exact (queue t mem).imp id fun at' => ⟨at', itemWaits rfl⟩
    · exact Or.inl (by rw [← lists _ same]; exact mem)
  · intro t mem
    by_cases same : .sVaga q = a
    · subst same
      exact (queue t mem).imp id fun at' => ⟨at', vagaWaits rfl⟩
    · exact Or.inl (by rw [← lists _ same]; exact mem)
  · rw [counts, item]
    simp only [eq_comm (a := SemAddr.sItem q)]
    change _ - ((buffer q s).length : Int) = _
    omega
  · rw [counts, vaga]
    simp only [eq_comm (a := SemAddr.sVaga q)]
    change _ + ((buffer q s).length : Int) = _
    omega
  · rw [counts, held]
    simp only [eq_comm (a := SemAddr.sBuffer q)]
    omega

theorem delivery_up (d : Delivery q max size s) {old new : Ctl N} {a : SemAddr}
    (here : s.ctl s.curr = old) (mine : semClient a = .queue q) (high : count a s < intMax)
    (notDestroyed : ∀ point, new ≠ .destroy q point)
    (item : itemShare q new = itemShare q old - if a = .sItem q then 1 else 0)
    (vaga : vagaShare q new = vagaShare q old - if a = .sVaga q then 1 else 0)
    (held : bufferShare q new = bufferShare q old - if a = .sBuffer q then 1 else 0)
    (run : (semUp s.kernel (some a)).map (fun x => (s.withKernel x.1).goto s.curr new) =
      .ok s') (conserved : Conserved s') : Delivery q max size s' := by
  obtain ⟨⟨k, r⟩, up, rfl⟩ := map_ok run
  obtain ⟨kept, balanced, value, _, queue⟩ := balanced_up d.conserved.placed (d.balanced a mine)
    (d.range a mine).1 high up
  have counts : ∀ b, count b ((s.withKernel k).goto s.curr new) =
      count b s + if b = a then 1 else 0 := by
    intro b
    by_cases same : b = a
    · subst same
      rw [if_pos rfl]
      exact value
    · rw [if_neg same]
      exact (congrArg Semaphore.value (kept.sem b (by simpa using same))).trans (by simp [count])
  have lists : ∀ b, b ≠ a → waiting b ((s.withKernel k).goto s.curr new) = waiting b s :=
    fun b other => kept.lists (.semQueue b) (by simp) (by simpa using other)
  have shrinks : ∀ b t, t ∈ waiting b ((s.withKernel k).goto s.curr new) → t ∈ waiting b s := by
    intro b t mem
    by_cases same : b = a
    · subst same; exact queue t mem
    · rw [← lists b same]; exact mem
  refine delivery_entry d conserved here rfl rfl rfl notDestroyed ?_ ?_
    (fun t mem => Or.inl (shrinks _ t mem)) (fun t mem => Or.inl (shrinks _ t mem)) ?_ ?_ ?_
    d.bytes d.order
  · intro b other
    by_cases same : b = a
    · subst same; exact balanced
    · exact balanced_kept (d.balanced b other) kept (by simpa using same) (by simpa using same)
  · intro b other
    have before := d.range b other
    rw [counts]
    by_cases same : b = a
    · subst same
      rw [if_pos rfl]
      exact ⟨by omega, by omega⟩
    · rw [if_neg same]
      exact ⟨by omega, by omega⟩
  · rw [counts, item]
    simp only [eq_comm (a := SemAddr.sItem q)]
    change _ - ((buffer q s).length : Int) = _
    omega
  · rw [counts, vaga]
    simp only [eq_comm (a := SemAddr.sVaga q)]
    change _ + ((buffer q s).length : Int) = _
    omega
  · rw [counts, held]
    simp only [eq_comm (a := SemAddr.sBuffer q)]
    omega

/-- Whoever waits for a place has reserved one, so that the places never run out. -/
theorem within_capacity (d : Delivery q max size s) : ((buffer q s).length : Int) ≤ max := by
  have reserved := length_le_tally (w := fun _ => vagaShare q) (c := s.ctl)
    (d.conserved.placed.wellFormed.ring (.semQueue (.sVaga q))).nodup
    (fun t => vagaShare_nonneg q (s.ctl t)) (fun t mem => by
      obtain ⟨a, here⟩ := d.vagaWaits t mem
      rw [here]
      simp [vagaShare])
  have waiters := (d.balanced (.sVaga q) rfl).waiters
  have vaga := d.vaga
  simp only [count, total] at vaga
  omega

/-- A receiver at its memcpy is one more than those that wait for a message. -/
theorem never_empty (d : Delivery q max size s) {t : Tcb N} {a : Nat}
    (here : s.ctl t = .recv q a .take) : buffer q s ≠ [] := by
  have fresh : t ∉ tasks s.kernel (.semQueue (.sItem q)) := by
    intro mem
    obtain ⟨b, there⟩ := d.itemWaits t mem
    rw [here] at there
    cases there
  have announced := length_le_tally (w := fun _ => itemShare q) (c := s.ctl)
    (l := t :: tasks s.kernel (.semQueue (.sItem q)))
    (List.nodup_cons.mpr ⟨fresh,
      (d.conserved.placed.wellFormed.ring (.semQueue (.sItem q))).nodup⟩)
    (fun t => itemShare_nonneg q (s.ctl t)) (fun u mem => by
      rcases List.mem_cons.mp mem with rfl | waits
      · rw [here]; simp [itemShare]
      · obtain ⟨b, there⟩ := d.itemWaits u waits
        rw [there]; simp [itemShare])
  have waiters := (d.balanced (.sItem q) rfl).waiters
  have item := d.item
  intro empty
  simp only [count, total, empty, List.length_nil] at item
  simp only [List.length_cons] at announced
  push_cast at announced item
  omega

theorem delivery_send (d : Delivery q max size s) {a : Nat} {point : SendPoint} {m₁ m₂ : Bool}
    (here : s.ctl s.curr = .send q a point) (conserved : Conserved s')
    (stores : Stores q s (.run m₁ m₂)) (fits : CounterFits q s (.run m₁ m₂))
    (run : mqueueSendStep s q a m₁ m₂ point = .ok s') : Delivery q max size s' := by
  simp only [CounterFits, here] at fits
  simp only [Stores, here] at stores
  cases point with
  | vaga =>
    exact delivery_down d here rfl (fits rfl) (by simp [role]) (by simp) (by simp)
      (fun _ => ⟨a, rfl⟩) (by simp [itemShare]) (by simp [vagaShare]) (by simp [bufferShare]) run
      conserved
  | buffer =>
    exact delivery_down d here rfl (fits rfl) (by simp [role]) (by simp) (by simp) (by simp)
      (by simp [itemShare]) (by simp [vagaShare]) (by simp [bufferShare]) run conserved
  | check =>
    simp only [mqueueSendStep, if_neg d.active] at run
    cases run
    exact delivery_move d conserved here (by simp) (by simp [itemShare]) (by simp [vagaShare])
      (by simp [bufferShare])
  | store =>
    obtain ⟨rfl, rfl⟩ := stores rfl
    cases run
    refine delivery_local d conserved here rfl rfl ?_ ?_ (by simp) ?_ ?_ (by simp [bufferShare])
      ?_ ?_
    · simp [System.setMqueue]
    · simp [System.setMqueue]
    · simp [buffer, System.setMqueue, itemShare]
    · simp [buffer, System.setMqueue, vagaShare]
      omega
    · intro msg mem
      simp only [buffer, System.goto_mqueue, System.setMqueue, Function.update_self,
        List.mem_append, List.mem_singleton] at mem
      rcases mem with old | rfl
      · exact d.bytes msg old
      · simp [loadBytes, d.msgSize]
    · have order := d.order
      simp only [buffer] at order
      simp [buffer, System.setMqueue, order]
  | upBuffer =>
    have held := d.held
    have share := le_tally (w := fun _ => bufferShare q) (c := s.ctl)
      (fun t => bufferShare_nonneg q (s.ctl t)) s.curr
    rw [here] at share
    simp only [bufferShare, ↓reduceIte] at share
    exact delivery_up d here rfl (by simp only [total, intMax] at held ⊢; omega) (by simp)
      (by simp [itemShare]) (by simp [vagaShare]) (by simp [bufferShare]) run conserved
  | upItem =>
    have item := d.item
    have room := within_capacity d
    have isInt := d.isInt
    have share := le_tally (w := fun _ => itemShare q) (c := s.ctl)
      (fun t => itemShare_nonneg q (s.ctl t)) s.curr
    rw [here] at share
    simp only [itemShare, ↓reduceIte] at share
    simp only [mqueueSendStep, up_answer _ d.conserved] at run
    exact delivery_up d here rfl (by simp only [total] at item; omega) (by simp)
      (by simp [itemShare]) (by simp [vagaShare]) (by simp [bufferShare]) run conserved

theorem delivery_recv (d : Delivery q max size s) {a : Nat} {point : RecvPoint} {m₁ m₂ : Bool}
    (here : s.ctl s.curr = .recv q a point) (conserved : Conserved s')
    (fits : CounterFits q s (.run m₁ m₂))
    (run : mqueueRecvStep s q a point = .ok s') : Delivery q max size s' := by
  simp only [CounterFits, here] at fits
  cases point with
  | item =>
    exact delivery_down d here rfl (fits rfl) (by simp [role]) (by simp) (fun _ => ⟨a, rfl⟩)
      (by simp) (by simp [itemShare]) (by simp [vagaShare]) (by simp [bufferShare]) run conserved
  | buffer =>
    exact delivery_down d here rfl (fits rfl) (by simp [role]) (by simp) (by simp) (by simp)
      (by simp [itemShare]) (by simp [vagaShare]) (by simp [bufferShare]) run conserved
  | check =>
    simp only [mqueueRecvStep, if_neg d.active] at run
    cases run
    exact delivery_move d conserved here (by simp) (by simp [itemShare]) (by simp [vagaShare])
      (by simp [bufferShare])
  | take =>
    simp only [mqueueRecvStep] at run
    split at run
    · cases run
    · rename_i first rest split
      have content : buffer q s = first :: rest := split
      have whole : first.take (sizeOfInt (s.mqueue q).msgSize) = first := by
        rw [d.msgSize, ← d.bytes first (by rw [content]; simp), List.take_length]
      cases run
      refine delivery_local d conserved here rfl rfl ?_ ?_ (by simp) ?_ ?_ (by simp [bufferShare])
        ?_ ?_
      · simp [System.setMqueue]
      · simp [System.setMqueue]
      · rw [content]
        simp [buffer, System.setMqueue, itemShare]
      · rw [content]
        simp [buffer, System.setMqueue, vagaShare]
        omega
      · intro msg mem
        simp only [buffer, System.goto_mqueue, System.setMqueue, Function.update_self] at mem
        exact d.bytes msg (by rw [content]; exact List.mem_cons_of_mem _ mem)
      · have order := d.order
        rw [content] at order
        simp [buffer, System.setMqueue, order, whole]
  | upBuffer =>
    have held := d.held
    have share := le_tally (w := fun _ => bufferShare q) (c := s.ctl)
      (fun t => bufferShare_nonneg q (s.ctl t)) s.curr
    rw [here] at share
    simp only [bufferShare, ↓reduceIte] at share
    exact delivery_up d here rfl (by simp only [total, intMax] at held ⊢; omega) (by simp)
      (by simp [itemShare]) (by simp [vagaShare]) (by simp [bufferShare]) run conserved
  | upVaga =>
    have vaga := d.vaga
    have isInt := d.isInt
    have share := le_tally (w := fun _ => vagaShare q) (c := s.ctl)
      (fun t => vagaShare_nonneg q (s.ctl t)) s.curr
    rw [here] at share
    simp only [vagaShare, ↓reduceIte] at share
    simp only [mqueueRecvStep, up_answer _ d.conserved] at run
    exact delivery_up d here rfl (by simp only [total] at vaga; omega) (by simp)
      (by simp [itemShare]) (by simp [vagaShare]) (by simp [bufferShare]) run conserved

theorem delivery_call (d : Delivery q max size s) {code : Int} (body : s.ctl s.curr = .body code)
    {c : Call N} (mine : callClient c = .queue q) (spares : Spares q (.call c))
    (run : call s c = .ok s') (conserved : Conserved s') : Delivery q max size s' := by
  simp only [callClient] at mine
  split at mine
  case h_6 =>
    cases mine
    exact absurd rfl spares
  case h_7 msg =>
    cases mine
    cases run
    cases msg with
    | none =>
      exact delivery_move d conserved body (by simp) (by simp [itemShare]) (by simp [vagaShare])
        (by simp [bufferShare])
    | some a =>
      simp only [mqueueSendCall, if_neg d.active] at conserved ⊢
      exact delivery_move d conserved body (by simp) (by simp [itemShare]) (by simp [vagaShare])
        (by simp [bufferShare])
  case h_8 msg =>
    cases mine
    cases run
    cases msg with
    | none =>
      exact delivery_move d conserved body (by simp) (by simp [itemShare]) (by simp [vagaShare])
        (by simp [bufferShare])
    | some a =>
      simp only [mqueueRecvCall, if_neg d.active] at conserved ⊢
      exact delivery_move d conserved body (by simp) (by simp [itemShare]) (by simp [vagaShare])
        (by simp [bufferShare])
  case h_9 =>
    cases mine
    exact absurd rfl spares
  all_goals cases mine

theorem delivery_step {l : Label N} (d : Delivery q max size s) (go : Operates s l s')
    (spares : Spares q l) (stores : Stores q s l) (fits : CounterFits q s l) :
    Delivery q max size s' := by
  obtain ⟨run, permitted⟩ := go
  have ok := step_kept d.conserved permitted run
  by_cases mine : client s l = .queue q
  · cases l with
    | tick => cases mine
    | completion => cases mine
    | call c =>
      obtain ⟨code, body, run⟩ := call_runs run
      exact delivery_call d body mine spares run ok.conserved
    | run m₁ m₂ =>
      rcases queue_runs mine run with ⟨_, _, here, ran⟩ | ⟨_, _, here, ran⟩ | ⟨_, here, -⟩
      · exact delivery_send d here ok.conserved stores fits ran
      · exact delivery_recv d here ok.conserved fits ran
      · exact absurd here (d.notDestroyed _ _)
  · exact delivery_framed d ok.conserved (ok.framed _ (by simp) (Ne.symm mine))

/-- Every unfinished call is blocked on s_item or s_vaga. -/
def Stalled (q : Nat) (s : System N) : Prop :=
  ∀ t, ctlClient (s.ctl t) = .queue q → t ∈ waiting (.sItem q) s ∨ t ∈ waiting (.sVaga q) s

theorem stalled_receivers (d : Delivery q max size s) (stalled : Stalled q s)
    (blocked : waiting (.sItem q) s ≠ []) : buffer q s = [] := by
  have shares : total (itemShare q) s = (tasks s.kernel (.semQueue (.sItem q))).length := by
    refine tally_eq_length (d.conserved.placed.wellFormed.ring _).nodup ?_ ?_
    · intro t mem
      obtain ⟨a, here⟩ := d.itemWaits t mem
      rw [here]
      simp [itemShare]
    · intro t out
      by_cases mine : ctlClient (s.ctl t) = .queue q
      · obtain ⟨a, here⟩ := d.vagaWaits t ((stalled t mine).resolve_left out)
        rw [here]
        rfl
      · exact itemShare_off mine
  have waiters := (d.balanced (.sItem q) rfl).waiters
  have some := List.length_pos_iff.mpr blocked
  have item := d.item
  simp only [count] at item
  simp only [waiting] at some
  exact List.eq_nil_of_length_eq_zero (by omega)

theorem stalled_senders (d : Delivery q max size s) (stalled : Stalled q s)
    (blocked : waiting (.sVaga q) s ≠ []) : ((buffer q s).length : Int) = max := by
  have shares : total (vagaShare q) s = (tasks s.kernel (.semQueue (.sVaga q))).length := by
    refine tally_eq_length (d.conserved.placed.wellFormed.ring _).nodup ?_ ?_
    · intro t mem
      obtain ⟨a, here⟩ := d.vagaWaits t mem
      rw [here]
      simp [vagaShare]
    · intro t out
      by_cases mine : ctlClient (s.ctl t) = .queue q
      · obtain ⟨a, here⟩ := d.itemWaits t ((stalled t mine).resolve_right out)
        rw [here]
        rfl
      · exact vagaShare_off mine
  have waiters := (d.balanced (.sVaga q) rfl).waiters
  have some := List.length_pos_iff.mpr blocked
  have vaga := d.vaga
  simp only [count] at vaga
  simp only [waiting] at some
  omega

end Steps

structure Delivered (q : Nat) (max : Int) (s : System N) : Prop where
  inOrder : s.history.received q <+: s.history.sent q
  capacity : ((buffer q s).length : Int) ≤ max
  neverEmpty : ∀ t a, s.ctl t = .recv q a .take → buffer q s ≠ []
  receivers : Stalled q s → waiting (.sItem q) s ≠ [] → buffer q s = []
  senders : Stalled q s → waiting (.sVaga q) s ≠ [] → ((buffer q s).length : Int) = max

theorem messages_are_delivered {q : Nat} {max size : Int} {s s' : System N}
    {labels : List (Label N)} (fresh : Fresh q max size s)
    (run : Run (fun s l s' => Interleaves q s l s' ∧ CounterFits q s l) s labels s') :
    Delivered q max s' := by
  have d : Delivery q max size s' := by
    refine run_invariant (Delivery q max size) ?_ run (fresh_delivery fresh)
    intro a l b d ⟨⟨go, permitted, spares, allocates⟩, fits⟩
    exact delivery_step d ⟨go, permitted⟩ spares (allocates_stores allocates) fits
  exact ⟨⟨_, d.order.symm⟩, within_capacity d, fun t a here => never_empty d here,
    stalled_receivers d, stalled_senders d⟩

def initialised (q : Nat) (max size : Int) : System N := mqueueInit bootSystem (some q) max size

theorem initialised_lists (q : Nat) (max size : Int) :
    tasks (initialised q max size : System N).kernel = bootLists := by
  have head : (initialised q max size : System N).kernel.queues.head =
      (bootSystem : System N).kernel.queues.head := by
    funext a
    simp only [initialised, mqueueInit, semInit, System.answer, System.goto, System.withKernel,
      System.setMqueue, Kernel.setSem, Function.update_apply]
    split
    · subst a; rfl
    · split
      · subst a; rfl
      · split
        · subst a; rfl
        · rfl
  have queues : (initialised q max size : System N).kernel.queues =
      (bootSystem : System N).kernel.queues := congrArg (Queues.mk · _) head
  rw [tasks, queues]
  exact (boot_lists boot_booted).1.elems_eq

theorem initialised_fresh {q : Nat} {max size : Int} (room : 1 ≤ max) (isInt : max ≤ intMax) :
    Fresh q max size (initialised q max size : System N) := by
  have none : ∀ a, tasks (bootSystem : System N).kernel (.semQueue a) = [] := fun a =>
    congrFun (boot_lists boot_booted).1.elems_eq _
  have permitted : Permitted (bootSystem : System N) (.call (.mqueueInit (some q) max size)) :=
    ⟨none _, none _, none _⟩
  have go : step (bootSystem : System N) (.call (.mqueueInit (some q) max size)) =
      some (.ok (initialised q max size)) := rfl
  refine ⟨(step_kept (boot_conserved boot_booted) permitted go).conserved, ?_, ?_, ?_, ?_, room,
    isInt, ?_, ?_, rfl, rfl⟩
  · simp [initialised, mqueueInit, System.setMqueue, System.answer]
  · simp [initialised, mqueueInit, semInit, System.setMqueue, System.answer, Kernel.setSem,
      bootSystem, bootKernel, zeroedKernel]
  · simp [initialised, mqueueInit, semInit, System.setMqueue, System.answer, Kernel.setSem,
      bootSystem, bootKernel, zeroedKernel]
  · simp [initialised, mqueueInit, semInit, System.setMqueue, System.answer, Kernel.setSem,
      bootSystem, bootKernel, zeroedKernel]
  · intro a _
    exact congrFun (initialised_lists q max size) _
  · intro t
    cases t <;> simp [initialised, mqueueInit, System.answer, System.setMqueue, bootSystem,
      ctlClient, System.curr, System.goto, System.withKernel, semInit, bootKernel, zeroedKernel,
      Kernel.setSem]

def Orderly (q : Nat) (s : System N) (l : Label N) (_ : System N) : Prop :=
  Permitted s l ∧ Spares q l ∧ Allocates l ∧ CounterFits q s l

instance (q : Nat) (s : System N) (l : Label N) (s' : System N) : Decidable (Orderly q s l s') :=
  inferInstanceAs (Decidable (_ ∧ _ ∧ _ ∧ _))

/-- The other task waits for a message; main is preempted while it sends one, and has to wait with
    the next one until the first has been received. -/
def twoMessages : List (Label (Fin 1)) :=
  [Label.call (.store 0 7), .call (.taskInit (.user 0) true),
    .call (.taskSwitch (some (.user 0))), .call (.mqueueRecv (some 0) (some 1))] ++
  List.replicate 5 (Label.run true true) ++ [Label.call (.mqueueSend (some 0) (some 0))] ++
  List.replicate 4 (Label.run true true) ++ List.replicate 10 Label.tick ++
  List.replicate 7 (Label.run true true) ++
  [Label.call (.store 0 9), .call (.mqueueSend (some 0) (some 0))] ++
  List.replicate 11 (Label.run true true) ++ [Label.call (.mqueueRecv (some 0) (some 2))] ++
  List.replicate 11 (Label.run true true) ++ [Label.call (.taskSwitch (some (.user 0)))] ++
  List.replicate 5 (Label.run true true)

theorem two_messages_are_delivered : ∃ s' : System (Fin 1),
    Run (fun s l s' => Interleaves 0 s l s' ∧ CounterFits 0 s l) (initialised 0 1 1)
      twoMessages s' ∧
    s'.history.received 0 = [[7], [9]] ∧ s'.ram 1 = 7 ∧ s'.ram 2 = 9 ∧ Delivered 0 1 s' := by
  obtain ⟨s', found, received, first, second⟩ := exec_reaches (guardedStep (Orderly 0))
    (initialised 0 1 1) twoMessages
    (fun s => s.history.received 0 = [[7], [9]] ∧ s.ram 1 = 7 ∧ s.ram 2 = 9) (by decide +kernel)
  have run : Run (fun s l s' => Interleaves 0 s l s' ∧ CounterFits 0 s l) (initialised 0 1 1)
      twoMessages s' := by
    refine run_mono ?_ (exec_guarded found)
    intro s l s' ⟨go, permitted, spares, allocates, fits⟩
    exact ⟨⟨go, permitted, spares, allocates⟩, fits⟩
  exact ⟨s', run, received, first, second,
    messages_are_delivered (initialised_fresh (by decide) (by decide)) run⟩

section Crowding
variable {n j b : Nat} {s : System (Fin n)}

/-- user_tasks_num when main has started j tasks; one of them gets the id of the driver. -/
def startedCount (j : Nat) : Int := toInt (if j < 4294967294 then j + 1 else j)

/-- main has started the first j tasks, and b of them wait for a message. -/
structure Crowd (j b : Nat) (s : System (Fin n)) : Prop where
  conserved : Conserved s
  head : LoopHead s
  item : s.kernel.sem (.sItem 0) = ⟨-b, 0, 1⟩
  free : s.kernel.sem (.sBuffer 0) = ⟨1, 0, 1⟩
  mqueue : s.mqueue 0 = ⟨[], 1, 1, 1⟩
  main : ∃ code, s.ctl .mainTask = .body code
  mainReady : .mainTask ∈ tasks s.kernel .readyTasks
  driver : live (s.ctl .diskDriverTask) = false
  idle : ∀ i : Fin n, j ≤ i.val → live (s.ctl (.user i)) = false
  started : ∀ i : Fin n, i.val < j → .user i ∈ waiting (.sItem 0) s ∨
    .user i ∈ tasks s.kernel .readyTasks ∧ ∃ code, s.ctl (.user i) = .body code
  sleeping : tasks s.kernel .sleepingTasks = []
  blocked : (waiting (.sItem 0) s).length = b
  num : s.kernel.userTasksNum = startedCount j
  last : s.kernel.lastTaskId = UInt64.ofNat j
  driverId : (s.kernel.task .diskDriverTask).id = -2

theorem crowd_start : Crowd 0 0 (initialised 0 1 1 : System (Fin n)) := by
  have fresh : Fresh 0 1 1 (initialised 0 1 1 : System (Fin n)) :=
    initialised_fresh (Int.le_refl 1) (by decide)
  have lists := initialised_lists (N := Fin n) 0 1 1
  refine ⟨fresh.conserved, Or.inl rfl, fresh.sItem, fresh.sBuffer, fresh.mqueue, ⟨0, rfl⟩, ?_, rfl,
    fun _ _ => rfl, fun i low => absurd low (Nat.not_lt_zero _), ?_, ?_, ?_, rfl, rfl⟩
  · rw [lists]; simp [bootLists]
  · rw [lists]; rfl
  · rw [waiting, lists]; rfl
  · change 1 = startedCount 0
    decide

theorem startedCount_next {j : Nat} (fits : j < 4294967297) (driver id : Int) (own : driver = -2)
    (next : id = toInt (j + 1)) :
    (if id = driver then toInt (toInt (startedCount j + 1) - 1) else toInt (startedCount j + 1)) =
      startedCount (j + 1) := by
  rcases Nat.lt_trichotomy j 4294967293 with low | here | high
  · have other : id ≠ driver := by
      rw [own, next]
      exact (id_is_ordinary (by omega)).1
    rw [if_neg other, startedCount, startedCount, if_pos (by omega), if_pos (by omega), toInt,
      toInt, Int.bmod_add_bmod]
    push_cast
    rfl
  · subst here
    rw [own, next]
    decide
  · have other : id ≠ driver := by
      simp only [toInt, Int.bmod_def] at next
      split at next <;> omega
    rw [if_neg other, startedCount, startedCount, if_neg (by omega), if_neg (by omega), toInt,
      toInt, Int.bmod_add_bmod]
    push_cast
    rfl

theorem crowd_spawn (c : Crowd j b s) (curr : s.curr = .mainTask) (room : j < n)
    (fits : j < 4294967297) :
    ∃ l s', Interleaves 0 s l s' ∧ Crowd (j + 1) b s' ∧ s'.curr = .mainTask := by
  obtain ⟨code, body⟩ := c.main
  obtain ⟨s', id, operates, curr', ctl, lists, num, last, _, mqueue, moved⟩ := init_step
    c.conserved code (by rw [curr]; exact body) (t := .user ⟨j, room⟩) (c.idle _ (Nat.le_refl j))
    (by simp)
  have other : ∀ t, t ≠ .mainTask → t ≠ .user ⟨j, room⟩ → s'.ctl t = s.ctl t := by
    intro t notMain notNew
    rw [ctl, curr, Function.update_of_ne notMain, Function.update_of_ne notNew]
  have ready : tasks s'.kernel .readyTasks = tasks s.kernel .readyTasks ++ [.user ⟨j, room⟩] := by
    rw [lists, listAppend_same]
  have elsewhere : ∀ q, q ≠ .readyTasks → tasks s'.kernel q = tasks s.kernel q := by
    intro q notReady
    rw [lists, listAppend_other _ _ notReady]
  refine ⟨_, s', ⟨operates.1, operates.2, trivial, trivial⟩,
    ⟨(step_kept c.conserved operates.2 operates.1).conserved, ?_, ?_, ?_, ?_, ?_, ?_, ?_, ?_, ?_,
      ?_, ?_, ?_, ?_, ?_⟩, curr'.trans curr⟩
  · rw [LoopHead, other _ (by simp) (by simp)]; exact c.head
  · rw [moved.sem _ (by simp)]; exact c.item
  · rw [moved.sem _ (by simp)]; exact c.free
  · rw [mqueue]; exact c.mqueue
  · exact ⟨id, by rw [ctl, curr, Function.update_self]⟩
  · rw [ready]; exact List.mem_append_left _ c.mainReady
  · rw [other _ (by simp) (by simp)]; exact c.driver
  · intro i later
    rw [other _ (by simp) (by simp only [ne_eq, Tcb.user.injEq, Fin.ext_iff]; omega)]
    exact c.idle i (by omega)
  · intro i before
    rw [ready, waiting, elsewhere _ (by simp)]
    by_cases new : i = ⟨j, room⟩
    · subst new
      exact Or.inr ⟨by simp, 0, by rw [ctl, curr, Function.update_of_ne (by simp),
        Function.update_self]⟩
    · rw [other _ (by simp) (by simpa using new)]
      refine (c.started i ?_).imp_right fun both => ⟨List.mem_append_left _ both.1, both.2⟩
      simp only [Fin.ext_iff] at new
      omega
  · rw [elsewhere _ (by simp)]; exact c.sleeping
  · rw [waiting, elsewhere _ (by simp)]; exact c.blocked
  · rw [num, initCount, c.num]
    simp only [reduceCtorEq, false_or]
    exact startedCount_next fits _ _ c.driverId (nextId_eq c.last (by omega))
  · rw [last, c.last]
    exact (UInt64.ofNat_add j 1).symm
  · rw [moved.ids _ (by rw [Function.update_of_ne (by simp)])]
    exact c.driverId

theorem crowd_gathers (room : j ≤ n) (fits : j ≤ 4294967297) :
    ∃ labels, ∃ s : System (Fin n), Run (Interleaves 0) (initialised 0 1 1) labels s ∧
      Crowd j 0 s ∧ s.curr = .mainTask := by
  induction j with
  | zero => exact ⟨[], _, .start _, crowd_start, rfl⟩
  | succ j ih =>
    obtain ⟨labels, s, run, c, curr⟩ := ih (by omega) (by omega)
    obtain ⟨l, s', last, c', curr'⟩ := crowd_spawn c curr (by omega) (by omega)
    exact ⟨labels ++ [l], s', .step run last, c', curr'⟩

theorem crowd_same {s' : System (Fin n)} (c : Crowd j b s) (conserved : Conserved s')
    (head : LoopHead s')
    (ctl : ∀ t, t ≠ .dispatcherTask → t ≠ .mainTask → s'.ctl t = s.ctl t)
    (main : ∃ code, s'.ctl .mainTask = .body code) (lists : tasks s'.kernel = tasks s.kernel)
    (sem : s'.kernel.sem = s.kernel.sem)
    (num : s'.kernel.userTasksNum = s.kernel.userTasksNum)
    (last : s'.kernel.lastTaskId = s.kernel.lastTaskId)
    (ids : ∀ t, (s'.kernel.task t).id = (s.kernel.task t).id) (mqueue : s'.mqueue = s.mqueue) :
    Crowd j b s' := by
  refine ⟨conserved, head, ?_, ?_, ?_, main, ?_, ?_, ?_, ?_, ?_, ?_, ?_, ?_, ?_⟩
  · rw [sem]; exact c.item
  · rw [sem]; exact c.free
  · rw [mqueue]; exact c.mqueue
  · rw [lists]; exact c.mainReady
  · rw [ctl _ (by simp) (by simp)]; exact c.driver
  · intro i
    rw [ctl _ (by simp) (by simp)]
    exact c.idle i
  · intro i
    rw [ctl _ (by simp) (by simp), waiting, lists]
    exact c.started i
  · rw [lists]; exact c.sleeping
  · rw [waiting, lists]; exact c.blocked
  · rw [num]; exact c.num
  · rw [last]; exact c.last
  · rw [ids]; exact c.driverId

theorem crowd_hand (c : Crowd n b s) (curr : s.curr = .mainTask) (few : b < n) :
    ∃ l s', Interleaves 0 s l s' ∧ Crowd n b s' ∧
      ∃ i code, s'.curr = .user i ∧ s'.ctl (.user i) = .body code := by
  obtain ⟨i, out⟩ : ∃ i : Fin n, .user i ∉ waiting (.sItem 0) s := by
    by_contra all
    simp only [not_exists, not_not] at all
    have inside : (Finset.univ.map ⟨Tcb.user, fun _ _ => Tcb.user.inj⟩) ⊆
        (waiting (.sItem 0) s).toFinset := by
      intro t mem
      obtain ⟨i, _, rfl⟩ := Finset.mem_map.mp mem
      exact List.mem_toFinset.mpr (all i)
    have card := Finset.card_le_card inside
    rw [Finset.card_map, Finset.card_univ, Fintype.card_fin] at card
    have some := List.toFinset_card_le (waiting (.sItem 0) s)
    have blocked := c.blocked
    omega
  obtain ⟨ready, code', body⟩ := (c.started i i.isLt).resolve_left out
  obtain ⟨code, main⟩ := c.main
  obtain ⟨k, switched, next, lists, sem, kept⟩ := switch_kept c.conserved.placed (Or.inr ready)
  have go : step s (.call (.taskSwitch (some (.user i)))) =
      some (.ok ((s.withKernel k).goto s.curr (.body 0))) := by
    simp only [step, curr, main, call, switched, Except.map]
  have permitted : Permitted s (.call (.taskSwitch (some (.user i)))) := Or.inr ready
  have other : ∀ t, t ≠ .mainTask →
      ((s.withKernel k).goto s.curr (.body 0)).ctl t = s.ctl t := by
    intro t notMain
    rw [System.goto_ctl, curr, Function.update_of_ne notMain]
    rfl
  refine ⟨_, _, ⟨go, permitted, trivial, trivial⟩,
    crowd_same c (step_kept c.conserved permitted go).conserved ?_ (fun t _ => other t)
      ⟨0, by rw [System.goto_ctl, curr, Function.update_self]⟩ lists sem (kept.counters rfl).1
      (kept.counters rfl).2 (fun t => kept.ids t rfl) rfl,
    i, code', next, by rw [other _ (by simp)]; exact body⟩
  rw [LoopHead, other _ (by simp)]
  exact c.head

theorem crowd_poised (c : Crowd n b s) (curr : s.curr = .dispatcherTask ∨ s.curr = .mainTask)
    (few : b < n) (going : 0 < startedCount n) :
    ∃ labels s', Run (Interleaves 0) s labels s' ∧ Crowd n b s' ∧
      ∃ i code, s'.curr = .user i ∧ s'.ctl (.user i) = .body code := by
  have handed : ∀ s : System (Fin n), Crowd n b s → s.curr = .mainTask →
      ∃ labels s', Run (Interleaves 0) s labels s' ∧ Crowd n b s' ∧
        ∃ i code, s'.curr = .user i ∧ s'.ctl (.user i) = .body code := by
    intro s c curr
    obtain ⟨l, s', next, facts⟩ := crowd_hand c curr few
    exact ⟨[l], s', run_one next, facts⟩
  rcases curr with dispatcher | main
  · obtain ⟨t, ready, labels, s', run, conserved, next, head, same⟩ := dispatcher_turn c.conserved
      dispatcher c.head (by rw [c.num]; exact going) c.sleeping (List.ne_nil_of_mem c.mainReady)
    have c' : Crowd n b s' := crowd_same c conserved head (fun t other _ => same.ctl t other)
      (by rw [same.ctl _ (by simp)]; exact c.main) same.lists same.sem same.num same.last same.ids
      same.mqueue
    have run' : Run (Interleaves 0) s labels s' := by
      refine run_mono ?_ run
      rintro s l s' ⟨go, rfl, _⟩
      exact ⟨go, trivial, trivial, rfl, rfl⟩
    have alive := (c.conserved.placed.queued t).mp ⟨_, ready⟩
    cases t with
    | mainTask =>
      obtain ⟨labels', s'', more, facts⟩ := handed s' c' next
      exact ⟨_, s'', run_append run' more, facts⟩
    | dispatcherTask => exact absurd rfl alive.2
    | diskDriverTask =>
      have off := c.driver
      rw [show live (s.ctl .diskDriverTask) = true from alive.1] at off
      cases off
    | user i =>
      rcases c'.started i i.isLt with blocked | ⟨_, code, body⟩
      · rw [waiting, same.lists] at blocked
        cases c.conserved.placed.wellFormed.unique blocked ready
      · exact ⟨labels, s', run', c', i, code, next, body⟩
  · exact handed s c main

theorem crowd_receives (c : Crowd n b s) {i : Fin n} {code : Int} (curr : s.curr = .user i)
    (body : s.ctl (.user i) = .body code) :
    ∃ l, Interleaves 0 s l (s.goto s.curr (.recv 0 0 .item)) ∧
      Conserved (s.goto s.curr (.recv 0 0 .item)) := by
  have go : step s (.call (.mqueueRecv (some 0) (some 0))) =
      some (.ok (s.goto s.curr (.recv 0 0 .item))) := by
    have active : (s.mqueue 0).active ≠ 0 := by rw [c.mqueue]; decide
    simp only [step, curr, body, call, mqueueRecvCall, if_neg active]
  have permitted : Permitted s (.call (.mqueueRecv (some 0) (some 0))) := trivial
  exact ⟨_, ⟨go, permitted, trivial, trivial⟩, (step_kept c.conserved permitted go).conserved⟩

theorem crowd_blocks (c : Crowd n b s) {i : Fin n} {code : Int} (curr : s.curr = .user i)
    (body : s.ctl (.user i) = .body code) (few : b < 2147483648) :
    ∃ labels s', Run (Interleaves 0) s labels s' ∧ Crowd n (b + 1) s' ∧
      s'.curr = .dispatcherTask := by
  obtain ⟨l, calls, c₁⟩ := crowd_receives c curr body
  generalize at₁ : s.goto s.curr (.recv 0 0 .item) = s₁ at calls c₁
  have kernel : s₁.kernel = s.kernel := by rw [← at₁]; rfl
  have curr₁ : s₁.curr = .user i := by rw [System.curr, kernel]; exact curr
  have here : s₁.ctl s₁.curr = .recv 0 0 .item := by rw [curr₁, ← at₁, ← curr]; simp
  have user : s₁.kernel.curr ≠ .dispatcherTask :=
    not_dispatcher c₁ (t := s₁.curr) (by rw [here]; simp [role])
  have item : s₁.kernel.sem (.sItem 0) = ⟨-b, 0, 1⟩ := by rw [kernel]; exact c.item
  obtain ⟨k, r, down, kept, sem, waits, _⟩ := semDown_kept c₁.placed user (s := .sItem 0)
    (by rw [item]; exact Int.one_ne_zero) (by rw [item]) (v := -(b + 1 : Nat)) (by
      rw [item]
      exact ((toInt_eq_self (by simp only [intMin]; omega) (by simp only [intMax]; omega)).trans
        (by push_cast; omega)).symm)
  obtain ⟨next, lists⟩ := waits (by omega)
  have go : step s₁ (.run true true) =
      some (.ok ((s₁.withKernel k).goto s₁.curr (.recv 0 0 .buffer))) := by
    simp only [step, advance, here, mqueueRecvStep, down, Except.map]
  have permitted : Permitted s₁ (.run true true) := trivial
  have ctl : ∀ t, t ≠ .user i →
      ((s₁.withKernel k).goto s₁.curr (.recv 0 0 .buffer)).ctl t = s.ctl t := by
    intro t other
    rw [System.goto_ctl, curr₁, Function.update_of_ne other, System.withKernel_ctl, ← at₁,
      System.goto_ctl, curr, Function.update_of_ne other]
  have ready : .user i ∈ tasks s₁.kernel .readyTasks := by
    rw [← curr₁]
    exact current_ready c₁.placed user
  rw [show s₁.kernel.curr = .user i from curr₁] at lists
  have moves : ∀ {p' t}, t ∈ tasks k p' ↔
      (t ∈ tasks s.kernel p' ∧ ¬ (p' = .readyTasks ∧ t = .user i)) ∨
        (p' = .semQueue (.sItem 0) ∧ t = .user i) := by
    intro p' t
    rw [lists, mem_moveTask c₁.placed.wellFormed, kernel]
  refine ⟨_, _, .step (run_one calls) ⟨go, permitted, trivial, rfl, rfl⟩,
    ⟨(step_kept c₁ permitted go).conserved, ?_, ?_, ?_, ?_, ?_, ?_, ?_, ?_, ?_, ?_, ?_, ?_, ?_, ?_⟩,
    next⟩
  · rw [LoopHead, ctl _ (by simp)]; exact c.head
  · exact sem.trans (by rw [item])
  · exact (kept.sem _ (by simp)).trans (by rw [kernel]; exact c.free)
  · rw [System.goto_mqueue, System.withKernel_mqueue, ← at₁]; exact c.mqueue
  · rw [ctl _ (by simp)]; exact c.main
  · exact moves.mpr (Or.inl ⟨c.mainReady, by simp⟩)
  · rw [ctl _ (by simp)]; exact c.driver
  · exact fun i' later => absurd i'.isLt (by omega)
  · intro i' low
    by_cases same : i' = i
    · subst same
      exact Or.inl (moves.mpr (Or.inr ⟨rfl, rfl⟩))
    · rw [ctl _ (by simpa using same)]
      refine (c.started i' low).imp (fun mem => moves.mpr (Or.inl ⟨mem, by simp⟩)) fun both => ?_
      exact ⟨moves.mpr (Or.inl ⟨both.1, by simpa using same⟩), both.2⟩
  · change tasks k .sleepingTasks = []
    rw [lists, moveTask_other _ (by simp) (by simp), kernel]
    exact c.sleeping
  · change (tasks k (.semQueue (.sItem 0))).length = b + 1
    rw [lists, moveTask_target _ (by simp), List.length_append, kernel, ← c.blocked]
    rfl
  · exact (kept.counters rfl).1.trans (by rw [kernel]; exact c.num)
  · exact (kept.counters rfl).2.trans (by rw [kernel]; exact c.last)
  · exact (kept.ids _ rfl).trans (by rw [kernel]; exact c.driverId)

theorem crowd_grows (b : Nat) (few : b ≤ 2147483648) (room : b ≤ n) (fits : n ≤ 4294967297)
    (going : 0 < startedCount n) :
    ∃ labels, ∃ s : System (Fin n), Run (Interleaves 0) (initialised 0 1 1) labels s ∧
      Crowd n b s ∧ (s.curr = .dispatcherTask ∨ s.curr = .mainTask) := by
  induction b with
  | zero =>
    obtain ⟨labels, s, run, c, curr⟩ := crowd_gathers (Nat.le_refl n) fits
    exact ⟨labels, s, run, c, Or.inr curr⟩
  | succ b ih =>
    obtain ⟨labels, s, run, c, curr⟩ := ih (by omega) (by omega)
    obtain ⟨labels₁, s₁, run₁, c₁, i, code, curr₁, body⟩ := crowd_poised c curr (by omega) going
    obtain ⟨labels₂, s₂, run₂, c₂, curr₂⟩ := crowd_blocks c₁ curr₁ body (by omega)
    exact ⟨_, s₂, run_append (run_append run run₁) run₂, c₂, Or.inl curr₂⟩

/-- With 2 ^ 31 waiting tasks the next sem_down wraps the counter and does not block. -/
theorem crowd_slips (c : Crowd n 2147483648 s) {i : Fin n} {code : Int} (curr : s.curr = .user i)
    (body : s.ctl (.user i) = .body code) :
    ∃ labels s', Run (Interleaves 0) s labels s' ∧ s'.ctl (.user i) = .recv 0 0 .take ∧
      buffer 0 s' = [] := by
  obtain ⟨l, calls, c₁⟩ := crowd_receives c curr body
  generalize at₁ : s.goto s.curr (.recv 0 0 .item) = s₁ at calls c₁
  have kernel : s₁.kernel = s.kernel := by rw [← at₁]; rfl
  have curr₁ : s₁.curr = .user i := by rw [System.curr, kernel]; exact curr
  have here₁ : s₁.ctl s₁.curr = .recv 0 0 .item := by rw [curr₁, ← at₁, ← curr]; simp
  have item : s₁.kernel.sem (.sItem 0) = ⟨-2147483648, 0, 1⟩ := by rw [kernel]; exact c.item
  obtain ⟨k₂, r₂, down₂, kept₂, _, _, passes₂⟩ := semDown_kept c₁.placed
    (not_dispatcher c₁ (t := s₁.curr) (by rw [here₁]; simp [role])) (s := .sItem 0)
    (by rw [item]; decide) (by rw [item]) (v := 2147483647) (by rw [item]; decide)
  have go₂ : step s₁ (.run true true) =
      some (.ok ((s₁.withKernel k₂).goto s₁.curr (.recv 0 0 .buffer))) := by
    simp only [step, advance, here₁, mqueueRecvStep, down₂, Except.map]
  have permitted : Permitted s₁ (.run true true) := trivial
  have c₂ := (step_kept c₁ permitted go₂).conserved
  generalize at₂ : (s₁.withKernel k₂).goto s₁.curr (.recv 0 0 .buffer) = s₂ at go₂ c₂
  have kernel₂ : s₂.kernel = k₂ := by rw [← at₂]; rfl
  have curr₂ : s₂.curr = .user i := by
    rw [System.curr, kernel₂]
    exact (passes₂ (by decide)).1.trans curr₁
  have here₂ : s₂.ctl s₂.curr = .recv 0 0 .buffer := by rw [curr₂, ← at₂, ← curr₁]; simp
  have free : s₂.kernel.sem (.sBuffer 0) = ⟨1, 0, 1⟩ := by
    rw [kernel₂, kept₂.sem _ (by simp), kernel]; exact c.free
  obtain ⟨k₃, r₃, down₃, _, _, _, passes₃⟩ := semDown_kept c₂.placed
    (not_dispatcher c₂ (t := s₂.curr) (by rw [here₂]; simp [role])) (s := .sBuffer 0)
    (by rw [free]; decide) (by rw [free]) (v := 0) (by rw [free]; decide)
  have go₃ : step s₂ (.run true true) =
      some (.ok ((s₂.withKernel k₃).goto s₂.curr (.recv 0 0 .check))) := by
    simp only [step, advance, here₂, mqueueRecvStep, down₃, Except.map]
  generalize at₃ : (s₂.withKernel k₃).goto s₂.curr (.recv 0 0 .check) = s₃ at go₃
  have curr₃ : s₃.curr = .user i := by
    rw [System.curr, show s₃.kernel = k₃ by rw [← at₃]; rfl]
    exact (passes₃ (by decide)).1.trans curr₂
  have here₃ : s₃.ctl s₃.curr = .recv 0 0 .check := by rw [curr₃, ← at₃, ← curr₂]; simp
  have data : s₃.mqueue 0 = ⟨[], 1, 1, 1⟩ := by rw [← at₃, ← at₂, ← at₁]; exact c.mqueue
  have go₄ : step s₃ (.run true true) = some (.ok (s₃.goto s₃.curr (.recv 0 0 .take))) := by
    have active : (s₃.mqueue 0).active ≠ 0 := by rw [data]; decide
    simp only [step, advance, here₃, mqueueRecvStep, if_neg active]
  refine ⟨_, _, .step (.step (.step (run_one calls) ⟨go₂, permitted, trivial, rfl, rfl⟩)
    ⟨go₃, trivial, trivial, rfl, rfl⟩) ⟨go₄, trivial, trivial, rfl, rfl⟩, ?_, ?_⟩
  · rw [System.goto_ctl, curr₃, Function.update_self]
  · change (s₃.mqueue 0).buffer = []
    rw [data]

end Crowding

/-- 2 ^ 31 receivers bring s_item to the least int, and the next one reads an empty buffer. -/
theorem empty_buffer_is_read :
    ¬ ∀ (s s' : System (Fin 4294967297)) (labels : List (Label (Fin 4294967297))),
      Fresh 0 1 1 s → Run (Interleaves 0) s labels s' → Delivered 0 1 s' := by
  intro claim
  obtain ⟨labels, s, run, c, curr⟩ := crowd_grows (n := 4294967297) 2147483648 (Nat.le_refl _)
    (by omega) (Nat.le_refl _) (by decide)
  obtain ⟨labels₁, s₁, run₁, c₁, i, code, curr₁, body⟩ := crowd_poised c curr (by omega)
    (by decide)
  obtain ⟨labels₂, s₂, run₂, takes, empty⟩ := crowd_slips c₁ curr₁ body
  have fresh : Fresh 0 1 1 (initialised 0 1 1 : System (Fin 4294967297)) :=
    initialised_fresh (Int.le_refl 1) (by decide)
  exact (claim _ _ _ fresh (run_append (run_append run run₁) run₂)).neverEmpty _ _ takes empty

end MessageQueues
