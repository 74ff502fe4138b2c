import PingPong.TaskConservation

/-!
The memory behind the messages of one queue. mqueue_send allocates two blocks for a message, the
msg_t and the bytes it points to; mqueue_recv and mqueue_destroy free the msg_t.
-/
namespace MessageMemory
open MachineModel KernelModel SystemModel SystemFrames TransitionRuns TaskConservation
variable {N : Type} [DecidableEq N]

section Heap

inductive HeapBlock where
  | header (msg : Option Nat)
  | payload (bytes : List UInt8)
  deriving DecidableEq

/-- The blocks that mqueue_send has allocated for the queue and nobody has freed, and the
    addresses of the msg_t in its buffer, the first one first. -/
structure Memory where
  heap : Nat → Option HeapBlock
  buffer : List Nat

/-- What the two calls of malloc in mqueue_send return if they succeed. -/
structure Room where
  header : Nat
  payload : Nat

/-- malloc returns no block that is in use. -/
def Available (m : Memory) (r : Room) : Prop :=
  m.heap r.header = none ∧ m.heap r.payload = none ∧ r.header ≠ r.payload

instance (m : Memory) (r : Room) : Decidable (Available m r) :=
  inferInstanceAs (Decidable (_ ∧ _ ∧ _))

def storeMessage (m : Memory) (r : Room) (bytes : List UInt8) (malloc₁ malloc₂ : Bool) : Memory :=
  if malloc₁ = false then m
  else if malloc₂ = false then
    -- return -1 with msg_elem->msg NULL, and msg_elem lost
    { m with heap := Function.update m.heap r.header (some (.header none)) }
  else
    { heap := Function.update (Function.update m.heap r.header (some (.header (some r.payload))))
        r.payload (some (.payload bytes))
      buffer := m.buffer ++ [r.header] }

def free (m : Memory) (a : Nat) : Except Halt Memory :=
  if m.heap a = none then .error .fault
  else .ok { m with heap := Function.update m.heap a none }

/-- aux = queue->buffer; queue_remove(&queue->buffer, queue->buffer); free(aux) -/
def freeFirst (m : Memory) : Except Halt Memory :=
  match m.buffer with
  | [] => .error .fault
  | aux :: rest => free { m with buffer := rest } aux

def load (heap : Nat → Option HeapBlock) (a : Nat) : Option (List UInt8) :=
  match heap a with
  | some (.header (some p)) => match heap p with
      | some (.payload bytes) => some bytes
      | _ => none
  | _ => none

def blocks (heap : Nat → Option HeapBlock) (a : Nat) : List Nat :=
  match heap a with
  | some (.header (some p)) => [a, p]
  | _ => [a]

def owned (m : Memory) : List Nat := m.buffer.flatMap (blocks m.heap)

def Exact (m : Memory) : Prop := ∀ a, m.heap a ≠ none ↔ a ∈ owned m

/-- Every message in the buffer has its two blocks, and shares none. -/
structure Sound (m : Memory) (messages : List (List UInt8)) : Prop where
  nodup : (owned m).Nodup
  loads : m.buffer.map (load m.heap) = messages.map some

variable {m m' : Memory} {r : Room} {bytes : List UInt8} {messages : List (List UInt8)}

theorem load_some {heap : Nat → Option HeapBlock} {a : Nat} (found : load heap a = some bytes) :
    ∃ p, heap a = some (.header (some p)) ∧ heap p = some (.payload bytes) ∧
      blocks heap a = [a, p] := by
  unfold load at found
  split at found
  · rename_i p head
    split at found
    · rename_i bytes' body
      cases found
      exact ⟨p, head, body, by simp only [blocks, head]⟩
    · cases found
  · cases found

theorem buffer_load (sound : Sound m messages) {a : Nat} (mem : a ∈ m.buffer) :
    ∃ bytes, load m.heap a = some bytes := by
  have inside : load m.heap a ∈ m.buffer.map (load m.heap) := List.mem_map_of_mem mem
  rw [sound.loads] at inside
  obtain ⟨bytes, -, same⟩ := List.mem_map.mp inside
  exact ⟨bytes, same.symm⟩

theorem buffer_allocated (sound : Sound m messages) {a : Nat} (mem : a ∈ m.buffer) :
    ∀ b ∈ blocks m.heap a, m.heap b ≠ none := by
  obtain ⟨bytes, found⟩ := buffer_load sound mem
  obtain ⟨p, head, body, both⟩ := load_some found
  intro b inside
  rw [both] at inside
  simp only [List.mem_cons, List.not_mem_nil, or_false] at inside
  rcases inside with rfl | rfl
  · rw [head]
    simp
  · rw [body]
    simp

theorem blocks_congr {heap heap' : Nat → Option HeapBlock} {a : Nat}
    (same : ∀ b ∈ blocks heap a, heap' b = heap b) :
    blocks heap' a = blocks heap a ∧ load heap' a = load heap a := by
  have head : heap' a = heap a := same a (by unfold blocks; split <;> simp)
  constructor
  · simp only [blocks, head]
  · unfold load
    rw [head]
    split
    · rename_i p here
      rw [same p (by simp only [blocks, here]; simp)]
    · rfl

theorem owned_congr {heap : Nat → Option HeapBlock} {l : List Nat}
    (same : ∀ a ∈ l, ∀ b ∈ blocks m.heap a, heap b = m.heap b) :
    l.flatMap (blocks heap) = l.flatMap (blocks m.heap) ∧
      l.map (load heap) = l.map (load m.heap) := by
  constructor
  · exact List.flatMap_congr fun a mem => (blocks_congr (same a mem)).1
  · exact List.map_congr_left fun a mem => (blocks_congr (same a mem)).2

theorem owned_allocated (sound : Sound m messages) {b : Nat} (mem : b ∈ owned m) :
    m.heap b ≠ none := by
  obtain ⟨a, inBuffer, inBlocks⟩ := List.mem_flatMap.mp mem
  exact buffer_allocated sound inBuffer b inBlocks

theorem owned_apart (sound : Sound m messages) {heap : Nat → Option HeapBlock}
    (same : ∀ b, m.heap b ≠ none → heap b = m.heap b) :
    m.buffer.flatMap (blocks heap) = owned m ∧
      m.buffer.map (load heap) = messages.map some := by
  have both : m.buffer.flatMap (blocks heap) = m.buffer.flatMap (blocks m.heap) ∧
      m.buffer.map (load heap) = m.buffer.map (load m.heap) :=
    owned_congr fun a mem b inside => same b (buffer_allocated sound mem b inside)
  exact ⟨both.1, both.2.trans sound.loads⟩

theorem store_both (sound : Sound m messages) (room : Available m r) :
    Sound (storeMessage m r bytes true true) (messages ++ [bytes]) ∧
      (Exact m → Exact (storeMessage m r bytes true true)) := by
  obtain ⟨noHeader, noPayload, apart⟩ := room
  have stored : storeMessage m r bytes true true =
      ⟨Function.update (Function.update m.heap r.header (some (.header (some r.payload))))
        r.payload (some (.payload bytes)), m.buffer ++ [r.header]⟩ := rfl
  generalize made : Function.update (Function.update m.heap r.header
    (some (.header (some r.payload)))) r.payload (some (.payload bytes)) = heap at stored
  have head : heap r.header = some (.header (some r.payload)) := by
    rw [← made, Function.update_of_ne apart, Function.update_self]
  have body : heap r.payload = some (.payload bytes) := by rw [← made, Function.update_self]
  have others : ∀ b, b ≠ r.header → b ≠ r.payload → heap b = m.heap b := by
    intro b first second
    rw [← made, Function.update_of_ne second, Function.update_of_ne first]
  have same : ∀ b, m.heap b ≠ none → heap b = m.heap b := fun b taken =>
    others b (fun same => taken (same ▸ noHeader)) fun same => taken (same ▸ noPayload)
  obtain ⟨owns, loads⟩ := owned_apart sound same
  have own : owned ⟨heap, m.buffer ++ [r.header]⟩ = owned m ++ [r.header, r.payload] := by
    simp only [owned, List.flatMap_append, List.flatMap_singleton]
    rw [owns]
    simp only [owned, blocks, head]
  have new : ∀ b, b = r.header ∨ b = r.payload → b ∉ owned m := by
    rintro b (rfl | rfl) mem
    · exact owned_allocated sound mem noHeader
    · exact owned_allocated sound mem noPayload
  rw [stored]
  refine ⟨⟨?_, ?_⟩, fun exact => ?_⟩
  · rw [own]
    refine List.Nodup.append sound.nodup (by simp [apart]) ?_
    intro b inOwned inNew
    simp only [List.mem_cons, List.not_mem_nil, or_false] at inNew
    exact new b inNew inOwned
  · simp only [List.map_append, List.map_cons, List.map_nil]
    rw [loads]
    simp only [load, head, body]
  · intro b
    rw [own]
    simp only [List.mem_append, List.mem_cons, List.not_mem_nil, or_false]
    by_cases first : b = r.header
    · rw [first]
      simp [head]
    · by_cases second : b = r.payload
      · rw [second]
        simp [body]
      · simp only [first, second, or_false]
        rw [others b first second]
        exact exact b

/-- The second malloc fails: the header stays behind. -/
theorem store_header (sound : Sound m messages) (room : Available m r) :
    Sound (storeMessage m r bytes true false) messages ∧
      (Exact m → ¬ Exact (storeMessage m r bytes true false)) := by
  have stored : storeMessage m r bytes true false =
      ⟨Function.update m.heap r.header (some (.header none)), m.buffer⟩ := rfl
  have others : ∀ b, m.heap b ≠ none →
      Function.update m.heap r.header (some (.header none)) b = m.heap b := by
    intro b taken
    refine Function.update_of_ne ?_ _ _
    rintro rfl
    exact taken room.1
  obtain ⟨owns, loads⟩ := owned_apart sound others
  have own : owned ⟨Function.update m.heap r.header (some (.header none)), m.buffer⟩ =
      owned m := owns
  rw [stored]
  refine ⟨⟨by rw [own]; exact sound.nodup, loads⟩, fun exact exact' => ?_⟩
  have inside := (exact' r.header).mp (by simp)
  rw [own] at inside
  exact owned_allocated sound inside room.1

/-- free(aux) is of an allocated block, and leaves the payload behind. -/
theorem free_first (sound : Sound m messages) {first : List UInt8} {rest : List (List UInt8)}
    (some' : messages = first :: rest) :
    ∃ m', freeFirst m = .ok m' ∧ Sound m' rest ∧ (Exact m → ¬ Exact m') := by
  have loads := sound.loads
  have nodup := sound.nodup
  rw [some'] at loads
  cases buffer : m.buffer with
  | nil =>
    rw [buffer] at loads
    cases loads
  | cons aux others =>
    rw [buffer, List.map_cons, List.map_cons, List.cons.injEq] at loads
    obtain ⟨p, head, body, both⟩ := load_some loads.1
    have own : owned m = aux :: p :: others.flatMap (blocks m.heap) := by
      rw [owned, buffer, List.flatMap_cons, both]
      rfl
    rw [own] at nodup
    obtain ⟨notAux, rest'⟩ := List.nodup_cons.mp nodup
    obtain ⟨notP, fine⟩ := List.nodup_cons.mp rest'
    have apart : ∀ a ∈ others, ∀ b ∈ blocks m.heap a,
        Function.update m.heap aux none b = m.heap b := by
      intro a mem b inside
      refine Function.update_of_ne ?_ _ _
      rintro rfl
      exact notAux (List.mem_cons_of_mem _ (List.mem_flatMap.mpr ⟨a, mem, inside⟩))
    obtain ⟨owns, same⟩ := owned_congr apart
    have own' : owned ⟨Function.update m.heap aux none, others⟩ =
        others.flatMap (blocks m.heap) := owns
    refine ⟨⟨Function.update m.heap aux none, others⟩, ?_, ⟨?_, ?_⟩, fun _ exact' => ?_⟩
    · simp only [freeFirst, buffer, free, head]
      rfl
    · rw [own']
      exact fine
    · exact same.trans loads.2
    · have apart : p ≠ aux := fun same => notAux (same ▸ List.mem_cons_self)
      have left : (Function.update m.heap aux none) p ≠ none := by
        rw [Function.update_of_ne apart, body]
        simp
      have inside := (exact' p).mp left
      rw [own'] at inside
      exact notP inside

end Heap

section Steps

def memoryStep (q : Nat) (s : System N) (m : Memory) (r : Room) : Label N → Except Halt Memory
  | .run malloc₁ malloc₂ => match s.ctl s.curr with
      | .send p a .store =>
        if p = q then
          .ok (storeMessage m r (loadBytes s.ram a (sizeOfInt (s.mqueue q).msgSize))
            malloc₁ malloc₂)
        else .ok m
      | .recv p _ .take => if p = q then freeFirst m else .ok m
      | .destroy p .drain => if p = q ∧ m.buffer ≠ [] then freeFirst m else .ok m
      | _ => .ok m
  | .call (.mqueueInit (some p) _ _) => .ok (if p = q then { m with buffer := [] } else m)
  | _ => .ok m

structure Store (N : Type) where
  system : System N
  memory : Memory

/-- The queue is not initialised again while there are messages in it. -/
def Keeps (q : Nat) (s : System N) : Label N → Prop
  | .call (.mqueueInit (some p) _ _) => p = q → (s.mqueue q).buffer = []
  | _ => True

/-- No allocation fails after another has succeeded, and no message leaves the buffer. -/
def Spares (q : Nat) (s : System N) : Label N → Prop
  | .run malloc₁ malloc₂ => match s.ctl s.curr with
      | .send p _ .store => p = q → malloc₁ = true → malloc₂ = true
      | .recv p _ .take => p ≠ q
      | .destroy p .drain => p = q → (s.mqueue q).buffer = []
      | _ => True
  | _ => True

variable [Fintype N]

def Runs (q : Nat) (a : Store N) (l : Label N × Room) (b : Store N) : Prop :=
  Operates a.system l.1 b.system ∧ Keeps q a.system l.1 ∧ Available a.memory l.2 ∧
    memoryStep q a.system a.memory l.2 l.1 = .ok b.memory

structure Opened (q : Nat) (a : Store N) : Prop where
  conserved : Conserved a.system
  empty : (a.system.mqueue q).buffer = []
  heap : a.memory = ⟨fun _ => none, []⟩

inductive Effect (q : Nat) (s : System N) (m : Memory) (r : Room) (l : Label N) (s' : System N) :
    Prop where
  | idle (memory : memoryStep q s m r l = .ok m)
      (buffer : (s'.mqueue q).buffer = (s.mqueue q).buffer) (spares : Spares q s l)
  | store (bytes : List UInt8)
      (memory : memoryStep q s m r l = .ok (storeMessage m r bytes true true))
      (buffer : (s'.mqueue q).buffer = (s.mqueue q).buffer ++ [bytes]) (spares : Spares q s l)
  | header (bytes : List UInt8)
      (memory : memoryStep q s m r l = .ok (storeMessage m r bytes true false))
      (buffer : (s'.mqueue q).buffer = (s.mqueue q).buffer) (wastes : ¬ Spares q s l)
  | remove (memory : memoryStep q s m r l = freeFirst m) (first : List UInt8)
      (buffer : (s.mqueue q).buffer = first :: (s'.mqueue q).buffer) (wastes : ¬ Spares q s l)

variable {q : Nat} {s s' : System N} {m : Memory} {r : Room} {l : Label N}

theorem framed_effect (framed : Framed (.queue q) s s') (mine : client s l ≠ .queue q) :
    Effect q s m r l s' := by
  have same : s'.mqueue q = s.mqueue q := framed.data.mqueue
  have buffer : (s'.mqueue q).buffer = (s.mqueue q).buffer := by rw [same]
  cases l with
  | tick | completion => exact .idle rfl buffer trivial
  | call c =>
    refine .idle ?_ buffer trivial
    cases c with
    | mqueueInit p max size =>
      cases p with
      | none => rfl
      | some p =>
        refine congrArg Except.ok (if_neg ?_)
        rintro rfl
        exact mine rfl
    | _ => rfl
  | run malloc₁ malloc₂ =>
    simp only [client] at mine
    refine .idle ?_ buffer ?_
    · simp only [memoryStep]
      split
      · rename_i here
        exact if_neg fun same => mine (by rw [here, same]; rfl)
      · rename_i here
        exact if_neg fun same => mine (by rw [here, same]; rfl)
      · rename_i here
        exact if_neg fun both => mine (by rw [here, both.1]; rfl)
      · rfl
    · simp only [Spares]
      split
      · rename_i here
        exact fun same => absurd (by rw [here, same]; rfl) mine
      · rename_i here
        exact fun same => absurd (by rw [here, same]; rfl) mine
      · rename_i here
        exact fun same => absurd (by rw [here, same]; rfl) mine
      · trivial

theorem send_effect {a : Nat} {point : SendPoint} {malloc₁ malloc₂ : Bool}
    (here : s.ctl s.curr = .send q a point)
    (run : mqueueSendStep s q a malloc₁ malloc₂ point = .ok s') :
    Effect q s m r (.run malloc₁ malloc₂) s' := by
  cases point with
  | store =>
    simp only [mqueueSendStep] at run
    cases malloc₁ with
    | false =>
      cases run
      refine .idle ?_ rfl ?_
      · simp only [memoryStep, here]
        rfl
      · simp [Spares, here]
    | true =>
      cases malloc₂ with
      | false =>
        cases run
        refine .header (loadBytes s.ram a (sizeOfInt (s.mqueue q).msgSize)) ?_ rfl ?_
        · simp only [memoryStep, here, ↓reduceIte]
        · simp [Spares, here]
      | true =>
        cases run
        refine .store (loadBytes s.ram a (sizeOfInt (s.mqueue q).msgSize)) ?_ ?_ ?_
        · simp only [memoryStep, here, ↓reduceIte]
        · simp [System.setMqueue]
        · simp [Spares, here]
  | check =>
    cases run
    refine .idle (by simp only [memoryStep, here]) ?_ (by simp [Spares, here])
    split
    · rfl
    · rfl
  | vaga | buffer | upBuffer | upItem =>
    obtain ⟨⟨k, code⟩, -, rfl⟩ := map_ok run
    exact .idle (by simp only [memoryStep, here]) rfl (by simp [Spares, here])

theorem recv_effect {a : Nat} {point : RecvPoint} {malloc₁ malloc₂ : Bool}
    (here : s.ctl s.curr = .recv q a point) (run : mqueueRecvStep s q a point = .ok s') :
    Effect q s m r (.run malloc₁ malloc₂) s' := by
  cases point with
  | take =>
    simp only [mqueueRecvStep] at run
    split at run
    · cases run
    · rename_i first rest messages
      cases run
      refine .remove ?_ first ?_ ?_
      · simp only [memoryStep, here, ↓reduceIte]
      · simp [System.setMqueue, messages]
      · simp [Spares, here]
  | check =>
    cases run
    refine .idle (by simp only [memoryStep, here]) ?_ (by simp [Spares, here])
    split
    · rfl
    · rfl
  | item | buffer | upBuffer | upVaga =>
    obtain ⟨⟨k, code⟩, -, rfl⟩ := map_ok run
    exact .idle (by simp only [memoryStep, here]) rfl (by simp [Spares, here])

theorem destroy_effect {point : DestroyPoint} {malloc₁ malloc₂ : Bool}
    (sound : Sound m (s.mqueue q).buffer) (here : s.ctl s.curr = .destroy q point)
    (run : mqueueDestroyStep s q point = .ok s') :
    Effect q s m r (.run malloc₁ malloc₂) s' := by
  have filled : m.buffer = [] ↔ (s.mqueue q).buffer = [] := by
    have same := congrArg List.length sound.loads
    rw [List.length_map, List.length_map] at same
    rw [← List.length_eq_zero_iff, same, List.length_eq_zero_iff]
  cases point with
  | drain =>
    simp only [mqueueDestroyStep] at run
    split at run
    · rename_i none
      cases run
      refine .idle ?_ rfl ?_
      · simp [memoryStep, here, filled, none]
      · simp [Spares, here, none]
    · rename_i first rest messages
      cases run
      refine .remove ?_ first ?_ ?_
      · simp [memoryStep, here, filled, messages]
      · simp [System.setMqueue, messages]
      · simp [Spares, here, messages]
  | close =>
    cases run
    refine .idle (by simp only [memoryStep, here]) ?_ (by simp [Spares, here])
    simp [System.setMqueue, System.answer]
  | buffer | item | vaga =>
    obtain ⟨⟨k, code⟩, -, rfl⟩ := map_ok run
    exact .idle (by simp only [memoryStep, here]) rfl (by simp [Spares, here])

theorem call_effect {c : Call N} (sound : Sound m (s.mqueue q).buffer)
    (mine : callClient c = .queue q) (keeps : Keeps q s (.call c))
    (run : call s c = .ok s') : Effect q s m r (.call c) s' := by
  cases c with
  | mqueueInit p max size =>
    cases p with
    | none => cases mine
    | some p =>
      cases mine
      cases run
      have none : (s.mqueue q).buffer = [] := keeps rfl
      have empty : m.buffer = [] := by
        have loads := sound.loads
        rw [none, List.map_nil, List.map_eq_nil_iff] at loads
        exact loads
      refine .idle ?_ ?_ trivial
      · simp only [memoryStep, ↓reduceIte]
        rw [← empty]
      · rw [none]
        simp [mqueueInit, System.setMqueue, System.answer]
  | mqueueSend p msg =>
    cases run
    refine .idle rfl ?_ trivial
    unfold mqueueSendCall
    split
    · split
      · rfl
      · rfl
    · rfl
  | mqueueRecv p msg =>
    cases run
    refine .idle rfl ?_ trivial
    unfold mqueueRecvCall
    split
    · split
      · rfl
      · rfl
    · rfl
  | mqueueDestroy p =>
    cases run
    refine .idle rfl ?_ trivial
    split
    · rfl
    · rfl
  | semInit n value | semDown n | semUp n | semDestroy n => cases n <;> cases mine
  | _ => cases mine

theorem step_effect (c : Conserved s) (sound : Sound m (s.mqueue q).buffer)
    (go : Operates s l s') (keeps : Keeps q s l) : Effect q s m r l s' := by
  obtain ⟨run, permitted⟩ := go
  by_cases mine : client s l = .queue q
  · cases l with
    | tick => cases mine
    | completion => cases mine
    | call c' =>
      obtain ⟨-, -, run⟩ := call_runs run
      exact call_effect sound mine keeps run
    | run malloc₁ malloc₂ =>
      rcases queue_runs mine run with ⟨_, _, here, ran⟩ | ⟨_, _, here, ran⟩ | ⟨_, here, ran⟩
      · exact send_effect here ran
      · exact recv_effect here ran
      · exact destroy_effect sound here ran
  · exact framed_effect ((step_kept c permitted run).framed (.queue q) (by simp) (Ne.symm mine))
      mine

omit [DecidableEq N] [Fintype N] in
/-- No step frees a block twice; a sound memory stays sound, and an exact one stays exact where
    the step spares it. -/
theorem effect_sound {m : Memory} {r : Room} (sound : Sound m (s.mqueue q).buffer)
    (room : Available m r) (effect : Effect q s m r l s') :
    ∃ m', memoryStep q s m r l = .ok m' ∧ Sound m' (s'.mqueue q).buffer ∧
      (Exact m → (Exact m' ↔ Spares q s l)) := by
  cases effect with
  | idle memory buffer spares =>
    exact ⟨m, memory, by rw [buffer]; exact sound, fun exact => iff_of_true exact spares⟩
  | store bytes memory buffer spares =>
    obtain ⟨sound', exact'⟩ := @store_both _ _ bytes _ sound room
    exact ⟨_, memory, by rw [buffer]; exact sound', fun exact => iff_of_true (exact' exact) spares⟩
  | header bytes memory buffer wastes =>
    obtain ⟨sound', leaks⟩ := @store_header _ _ bytes _ sound room
    exact ⟨_, memory, by rw [buffer]; exact sound', fun exact => iff_of_false (leaks exact) wastes⟩
  | remove memory first buffer wastes =>
    obtain ⟨m', freed, sound', leaks⟩ := free_first sound buffer
    exact ⟨m', memory.trans freed, sound', fun exact => iff_of_false (leaks exact) wastes⟩

end Steps

section Runs
variable [Fintype N] {q : Nat} {a b : Store N}

structure Tracked (q : Nat) (a : Store N) : Prop where
  conserved : Conserved a.system
  sound : Sound a.memory (a.system.mqueue q).buffer

theorem tracked_step {l : Label N × Room} (t : Tracked q a) (go : Runs q a l b) :
    Tracked q b ∧ (Exact a.memory → (Exact b.memory ↔ Spares q a.system l.1)) := by
  obtain ⟨operates, keeps, room, memory⟩ := go
  obtain ⟨m, stepped, sound, exact⟩ := effect_sound t.sound room
    (step_effect t.conserved t.sound operates keeps)
  rw [memory, Except.ok.injEq] at stepped
  subst stepped
  exact ⟨⟨(step_kept t.conserved operates.2 operates.1).conserved, sound⟩, exact⟩

theorem opened_exact (opened : Opened q a) : Exact a.memory := by
  intro x
  rw [opened.heap]
  simp [owned]

theorem opened_tracked (opened : Opened q a) : Tracked q a := by
  refine ⟨opened.conserved, ?_⟩
  rw [opened.heap, opened.empty]
  exact ⟨List.nodup_nil, rfl⟩

theorem run_tracked {labels : List (Label N × Room)} (opened : Opened q a)
    (run : Run (Runs q) a labels b) : Tracked q b :=
  run_invariant (Tracked q) (fun _ _ _ t go => (tracked_step t go).1) run (opened_tracked opened)

theorem spared_run {labels : List (Label N × Room)} (opened : Opened q a)
    (run : Run (fun a l b => Runs q a l b ∧ Spares q a.system l.1) a labels b) :
    Run (fun a l b => Runs q a l b ∧ Exact b.memory) a labels b ∧ Tracked q b ∧
      Exact b.memory := by
  induction run with
  | start => exact ⟨.start _, opened_tracked opened, opened_exact opened⟩
  | step _ last ih =>
    obtain ⟨run, tracked, exact⟩ := ih
    obtain ⟨tracked', kept⟩ := tracked_step tracked last.1
    have exact' := (kept exact).mpr last.2
    exact ⟨.step run ⟨last.1, exact'⟩, tracked', exact'⟩

theorem exact_run {labels : List (Label N × Room)} (opened : Opened q a)
    (run : Run (fun a l b => Runs q a l b ∧ Exact b.memory) a labels b) :
    Run (fun a l b => Runs q a l b ∧ Spares q a.system l.1) a labels b ∧ Tracked q b ∧
      Exact b.memory := by
  induction run with
  | start => exact ⟨.start _, opened_tracked opened, opened_exact opened⟩
  | step _ last ih =>
    obtain ⟨run, tracked, exact⟩ := ih
    obtain ⟨tracked', kept⟩ := tracked_step tracked last.1
    exact ⟨.step run ⟨last.1, (kept exact).mp last.2⟩, tracked', last.2⟩

/-- The loop of mqueue_destroy ends when the buffer is empty, and then so is an exact memory. -/
theorem destroyed_memory {malloc₁ malloc₂ : Bool} {r : Room} (t : Tracked q a)
    (exact : Exact a.memory) (go : Runs q a (.run malloc₁ malloc₂, r) b)
    (loop : a.system.ctl a.system.curr = .destroy q .drain)
    (out : b.system.ctl a.system.curr = .destroy q .close) : ∀ x, b.memory.heap x = none := by
  have empty : (a.system.mqueue q).buffer = [] := by
    have run := go.1.1
    simp only [step, advance, loop, Option.some.injEq, mqueueDestroyStep] at run
    split at run
    · assumption
    · rw [← Except.ok.inj run] at out
      cases loop.symm.trans out
  have kept : Exact b.memory := ((tracked_step t go).2 exact).mpr (by simp [Spares, loop, empty])
  have none : b.memory.buffer = [] := by
    have buffer : a.memory.buffer = [] := by
      have loads := t.sound.loads
      rw [empty, List.map_nil, List.map_eq_nil_iff] at loads
      exact loads
    have memory := go.2.2.2
    simp only [memoryStep, loop, buffer, ne_eq, not_true_eq_false, and_false, ↓reduceIte,
      Except.ok.injEq] at memory
    rw [← memory]
    exact buffer
  intro x
  by_contra left
  have inside := (kept x).mp left
  rw [owned, none] at inside
  cases inside

/-- The blocks are those of the messages in the buffer, in every state of a run, exactly if no
    message leaves the buffer in it and no allocation fails after another has succeeded. Nothing
    is freed twice. -/
theorem message_memory_is_accounted {q : Nat} {a b : Store N} {labels : List (Label N × Room)}
    (opened : Opened q a) :
    (Run (Runs q) a labels b → ∀ l r s', Operates b.system l s' → Keeps q b.system l →
      Available b.memory r → ∃ m, memoryStep q b.system b.memory r l = .ok m) ∧
    (Run (fun a l b => Runs q a l b ∧ Exact b.memory) a labels b ↔
      Run (fun a l b => Runs q a l b ∧ Spares q a.system l.1) a labels b) ∧
    (Run (fun a l b => Runs q a l b ∧ Spares q a.system l.1) a labels b →
      Exact b.memory ∧ ∀ malloc₁ malloc₂ r c, Runs q b (.run malloc₁ malloc₂, r) c →
        b.system.ctl b.system.curr = .destroy q .drain →
        c.system.ctl b.system.curr = .destroy q .close → ∀ x, c.memory.heap x = none) := by
  refine ⟨?_, ⟨?_, ?_⟩, ?_⟩
  · intro run l r s' operates keeps room
    have t := run_tracked opened run
    obtain ⟨m, stepped, -⟩ := effect_sound t.sound room
      (step_effect t.conserved t.sound operates keeps)
    exact ⟨m, stepped⟩
  · intro run
    exact (exact_run opened run).1
  · intro run
    exact (spared_run opened run).1
  · intro run
    obtain ⟨-, t, exact⟩ := spared_run opened run
    exact ⟨exact, fun _ _ _ _ go loop out => destroyed_memory t exact go loop out⟩

end Runs

section Examples

instance (q : Nat) (s : System N) (l : Label N) : Decidable (Keeps q s l) := by
  unfold Keeps
  rcases l with _ | _ | c | _ <;> try infer_instance
  rcases c with _ | _ <;> try infer_instance
  case mqueueInit o _ _ => rcases o with _ | _ <;> infer_instance

instance (q : Nat) (s : System N) (l : Label N) : Decidable (Spares q s l) := by
  unfold Spares
  generalize s.ctl s.curr = c
  rcases l with _ | _ | _ | _ <;> try infer_instance
  rcases c with _ | _ <;> try infer_instance
  case send point | recv point | destroy point => rcases point with _ | _ <;> infer_instance

variable [Fintype N]

def storeStep (a : Store N) (l : Label N × Room) : Option (Store N) :=
  (guardedStep (fun s l _ => Permitted s l ∧ Keeps 0 s l) a.system l.1).bind fun s' =>
    if Available a.memory l.2 then
      match memoryStep 0 a.system a.memory l.2 l.1 with
      | .ok m => some ⟨s', m⟩
      | .error _ => none
    else none

theorem storeStep_runs {a b : Store N} {l : Label N × Room} (done : storeStep a l = some b) :
    Runs 0 a l b := by
  obtain ⟨s', stepped, rest⟩ := Option.bind_eq_some_iff.mp done
  obtain ⟨go, permitted, keeps⟩ := guardedStep_eq stepped
  split at rest
  · rename_i room
    split at rest
    · rename_i m memory
      cases rest
      exact ⟨⟨go, permitted⟩, keeps, room, memory⟩
    · cases rest
  · cases rest

def bootStore : Store (Fin 1) := ⟨bootSystem, ⟨fun _ => none, []⟩⟩

theorem boot_opened : Opened 0 bootStore := ⟨boot_conserved boot_booted, rfl, rfl⟩

def inRoom (r : Room) (labels : List (Label (Fin 1))) : List (Label (Fin 1) × Room) :=
  labels.map (·, r)

/-- main initialises the queue and sends a byte, in blocks 0 and 1. -/
def mainSends : List (Label (Fin 1) × Room) :=
  inRoom ⟨0, 1⟩ ([Label.call (.mqueueInit (some 0) 1 1), .call (.mqueueSend (some 0) (some 0))] ++
    List.replicate 4 (Label.run true true)) ++
  inRoom ⟨2, 3⟩ (List.replicate 2 (Label.run true true))

def sparingStep (a : Store N) (l : Label N × Room) : Option (Store N) :=
  if Spares 0 a.system l.1 then storeStep a l else none

theorem sent_message_has_two_blocks : ∃ b : Store (Fin 1),
    Run (fun a l b => Runs 0 a l b ∧ Spares 0 a.system l.1) bootStore mainSends b ∧
      owned b.memory = [0, 1] ∧ Exact b.memory := by
  obtain ⟨b, found, both⟩ := exec_reaches sparingStep bootStore mainSends
    (fun b => owned b.memory = [0, 1]) (by decide +kernel)
  have run : Run (fun a l b => Runs 0 a l b ∧ Spares 0 a.system l.1) bootStore mainSends b := by
    refine run_mono (fun a l b done => ?_) (exec_run found)
    unfold sparingStep at done
    split at done
    · rename_i spares
      exact ⟨storeStep_runs done, spares⟩
    · cases done
  exact ⟨b, run, both, ((message_memory_is_accounted boot_opened).2.2 run).1⟩

def mainReceives : List (Label (Fin 1) × Room) :=
  mainSends ++ inRoom ⟨2, 3⟩ ([Label.call (.mqueueRecv (some 0) (some 0))] ++
    List.replicate 6 (Label.run true true))

theorem received_payload_is_lost :
    ¬ ∀ (labels : List (Label (Fin 1) × Room)) (b : Store (Fin 1)),
      Run (Runs 0) bootStore labels b → b.system.ctl b.system.curr = .body 0 →
      Exact b.memory := by
  intro claim
  obtain ⟨b, found, back, gone, left⟩ := exec_reaches storeStep bootStore mainReceives
    (fun b => b.system.ctl b.system.curr = .body 0 ∧ owned b.memory = [] ∧
      b.memory.heap 1 = some (.payload [0])) (by decide +kernel)
  have exact := claim mainReceives b (run_mono (fun _ _ _ done => storeStep_runs done)
    (exec_run found)) back
  have inside := (exact 1).mp (by rw [left]; simp)
  rw [gone] at inside
  cases inside

end Examples

end MessageMemory
