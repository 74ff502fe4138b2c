import PingPong.CircularList

/-! The generic queues of core/queue.c: queue variables and the two link fields
   every queued structure starts with. Pointers are optional addresses, and a
   loop that outruns the number of cells in memory does not end. -/
namespace QueueModel
open MachineModel CircularList
variable {Q A : Type}

def sucess : Int := 0
def emptyQueue : Int := -1
def noElem : Int := -2
def belongsToAnotherQueue : Int := -3
def noQueue : Int := -4
def notOnQueue : Int := -5

structure Queues (Q A : Type) where
  head : Q → Option A
  link : A → Links A

section Source
variable [DecidableEq A]

/-- The counter is a size_t and the result an int. -/
def queueSize [Fintype A] (m : Queues Q A) (queue : Option A) : Except Halt Int :=
  match queue with
  | none => .ok 0
  | some first => do
      let size ← countTo m.link first (Fintype.card A) first 1
      .ok (toInt (size % 18446744073709551616 : Nat))

def queueAppend [DecidableEq Q] (m : Queues Q A) (queue : Option Q) (elem : Option A) :
    Except Halt (Queues Q A × Int) :=
  match queue with
  | none => .ok (m, noQueue)
  | some q =>
    match elem with
    | none => .ok (m, noElem)
    | some e =>
      if (m.link e).next ≠ none ∨ (m.link e).prev ≠ none then .ok (m, belongsToAnotherQueue)
      else match m.head q with
        | none =>
          .ok (⟨Function.update m.head q (some e), setNext (setPrev m.link e (some e)) e (some e)⟩,
            sucess)
        | some first =>
          match (m.link first).prev with
          | none => .error .fault
          | some aux => .ok (⟨m.head, linkBetween m.link aux e first⟩, sucess)

def queueRemove [DecidableEq Q] [Fintype A] (m : Queues Q A) (queue : Option Q)
    (elem : Option A) : Except Halt (Queues Q A × Int) :=
  match queue with
  | none => .ok (m, noQueue)
  | some q =>
    match elem with
    | none => .ok (m, noElem)
    | some e =>
      match m.head q with
      | none => .ok (m, emptyQueue)
      | some first =>
        match (m.link e).next, (m.link e).prev with
        | some next, some prev => do
          -- the walk starts in the ring of the element, whichever queue that is
          let aux ← walk m.link (fun a => a = e || a = first) (Fintype.card A) (some next)
          if aux = e ∧ aux ≠ first then .ok (m, belongsToAnotherQueue)
          else if next = e then
            .ok (⟨Function.update m.head q none, setPrev (setNext m.link e none) e none⟩, sucess)
          else
            let head := if e = first then Function.update m.head q (some next) else m.head
            .ok (⟨head, unlinkBetween m.link prev e next⟩, sucess)
        | _, _ => .ok (m, notOnQueue)

end Source

/-- The elements of a queue, read off the heap from its head along the next links. -/
def elems [DecidableEq A] [Fintype A] (m : Queues Q A) (q : Q) : List A :=
  match m.head q with
  | none => []
  | some first => first :: collect m.link first (Fintype.card A) first

/-- A family of duplicate-free lists that share no element. -/
structure Represents (m : Queues Q A) (qs : Q → List A) : Prop where
  head : ∀ q, m.head q = (qs q).head?
  ring : ∀ q, Ring m.link (qs q)
  unique : ∀ {a p q}, a ∈ qs p → a ∈ qs q → p = q
  free : ∀ a, (∀ q, a ∉ qs q) → m.link a = Links.free

section Lists
variable [DecidableEq Q]

/-- The abstract queues: appending and removing on a family of lists. -/
def listAppend (qs : Q → List A) (q : Q) (e : A) : Q → List A :=
  Function.update qs q (qs q ++ [e])

def listRemove [DecidableEq A] (qs : Q → List A) (q : Q) (e : A) : Q → List A :=
  Function.update qs q ((qs q).erase e)

@[simp] theorem listAppend_same (qs : Q → List A) (q : Q) (e : A) :
    listAppend qs q e q = qs q ++ [e] := by simp [listAppend]

theorem listAppend_other (qs : Q → List A) {p q : Q} (e : A) (ne : p ≠ q) :
    listAppend qs q e p = qs p := by simp [listAppend, ne]

@[simp] theorem listRemove_same [DecidableEq A] (qs : Q → List A) (q : Q) (e : A) :
    listRemove qs q e q = (qs q).erase e := by simp [listRemove]

theorem listRemove_other [DecidableEq A] (qs : Q → List A) {p q : Q} (e : A) (ne : p ≠ q) :
    listRemove qs q e p = qs p := by simp [listRemove, ne]

theorem mem_listAppend {qs : Q → List A} {p q : Q} {a e : A} :
    a ∈ listAppend qs q e p ↔ a ∈ qs p ∨ (p = q ∧ a = e) := by
  by_cases same : p = q
  · subst same; simp
  · simp [listAppend_other, same]

end Lists

section LinkFrames
variable [DecidableEq A]

theorem linkBetween_other (link : A → Links A) {z e a b : A} (bz : b ≠ z) (be : b ≠ e)
    (ba : b ≠ a) : linkBetween link z e a b = link b := by
  simp only [linkBetween]
  rw [setPrev_other _ _ be, setPrev_other _ _ ba, setNext_other _ _ be, setNext_other _ _ bz]

theorem unlinkBetween_other (link : A → Links A) {p e n b : A} (bp : b ≠ p) (be : b ≠ e)
    (bn : b ≠ n) : unlinkBetween link p e n b = link b := by
  simp only [unlinkBetween]
  rw [setPrev_other _ _ be, setNext_other _ _ be, setPrev_other _ _ bn, setNext_other _ _ bp]

theorem unlinkBetween_elem (link : A → Links A) (p e n : A) :
    unlinkBetween link p e n e = Links.free := by
  simp [unlinkBetween, Links.free, setPrev, setNext]

end LinkFrames

namespace Represents
variable {m : Queues Q A} {qs : Q → List A}

theorem linked (r : Represents m qs) {q : Q} {a : A} (mem : a ∈ qs q) :
    (m.link a).next ≠ none ∧ (m.link a).prev ≠ none := ring_linked (r.ring q) mem

theorem length_le [Fintype A] (r : Represents m qs) (q : Q) :
    (qs q).length ≤ Fintype.card A := (r.ring q).nodup.length_le_card

/-- Where two states hold the same lists, they hold the same links. -/
theorem same_links {m' : Queues Q A} {qs' : Q → List A} (r : Represents m qs)
    (r' : Represents m' qs') {a : A} (same : ∀ q, a ∈ qs q ∨ a ∈ qs' q → qs' q = qs q) :
    m'.link a = m.link a := by
  by_cases queued : ∃ q, a ∈ qs q
  · obtain ⟨q, mem⟩ := queued
    have ring := r'.ring q
    rw [same q (Or.inl mem)] at ring
    exact ring_determines (r.ring q) ring mem
  · have out : ∀ q, a ∉ qs q := fun q mem => queued ⟨q, mem⟩
    have out' : ∀ q, a ∉ qs' q := fun q mem => out q (same q (Or.inr mem) ▸ mem)
    rw [r.free a out, r'.free a out']

theorem elems_eq [DecidableEq A] [Fintype A] (r : Represents m qs) : elems m = qs := by
  funext q
  have ring := r.ring q
  have bound := r.length_le q
  simp only [elems, r.head q]
  rcases split : qs q with _ | ⟨first, rest⟩
  · rfl
  · rw [split] at ring bound
    have fresh := (List.nodup_cons.mp ring.nodup).1
    simp only [List.length_cons] at bound
    have others := collect_path (Fintype.card A) (ring_path ring) fresh (by omega)
    simp only [List.head?_cons, others]

theorem read_back [DecidableEq A] [Fintype A] (r : Represents m qs) :
    Represents m (elems m) := by
  rw [r.elems_eq]; exact r

variable [DecidableEq Q] [DecidableEq A]

theorem mem_remove (r : Represents m qs) {p q : Q} {a e : A} :
    a ∈ listRemove qs q e p ↔ a ∈ qs p ∧ ¬ (p = q ∧ a = e) := by
  by_cases same : p = q
  · subst same
    rw [listRemove_same, (r.ring p).nodup.mem_erase_iff]
    tauto
  · simp [listRemove_other, same]

theorem append_busy (r : Represents m qs) {p : Q} {e : A} (mem : e ∈ qs p) (q : Q) :
    queueAppend m (some q) (some e) = .ok (m, belongsToAnotherQueue) := by
  simp [queueAppend, (r.linked mem).1]

theorem append_free (r : Represents m qs) {e : A} (fresh : ∀ p, e ∉ qs p) (q : Q) :
    ∃ m', queueAppend m (some q) (some e) = .ok (m', sucess) ∧
      Represents m' (listAppend qs q e) := by
  have freeLink := r.free e fresh
  have unlinked : ¬ ((m.link e).next ≠ none ∨ (m.link e).prev ≠ none) := by
    simp [freeLink, Links.free]
  have unique : ∀ {a p p'}, a ∈ listAppend qs q e p → a ∈ listAppend qs q e p' → p = p' := by
    intro a p p' hp hp'
    rw [mem_listAppend] at hp hp'
    rcases hp with hp | ⟨pq, ae⟩ <;> rcases hp' with hp' | ⟨pq', ae'⟩
    · exact r.unique hp hp'
    · exact absurd (ae' ▸ hp) (fresh p)
    · exact absurd (ae ▸ hp') (fresh p')
    · exact pq.trans pq'.symm
  rcases split : qs q with _ | ⟨first, rest⟩
  · have empty : m.head q = none := by simp [r.head q, split]
    refine ⟨⟨Function.update m.head q (some e), setNext (setPrev m.link e (some e)) e (some e)⟩,
      by simp [queueAppend, unlinked, empty], ?_, ?_, unique, ?_⟩
    · intro p
      by_cases same : p = q
      · subst same; simp [split]
      · simp [same, listAppend_other, r.head p]
    · intro p
      by_cases same : p = q
      · subst same
        simp only [listAppend_same, split, List.nil_append]
        exact ring_singleton (by simp) (by simp)
      · rw [listAppend_other qs e same]
        refine ring_congr (r.ring p) fun a mem => ?_
        have ae : a ≠ e := fun eq => fresh p (eq ▸ mem)
        simp only
        rw [setNext_other _ _ ae, setPrev_other _ _ ae]
    · intro a out
      have ae : a ≠ e := fun eq => out q (by simp [eq])
      simp only
      rw [setNext_other _ _ ae, setPrev_other _ _ ae]
      exact r.free a fun p mem => out p (mem_listAppend.mpr (Or.inl mem))
  · have ring := r.ring q
    rw [split] at ring
    have nonempty : m.head q = some first := by simp [r.head q, split]
    have last := ring_head_prev ring
    have lastMem : (first :: rest).getLast (by simp) ∈ qs q := by
      rw [split]; exact List.getLast_mem _
    have firstMem : first ∈ qs q := by simp [split]
    refine ⟨⟨m.head, linkBetween m.link ((first :: rest).getLast (by simp)) e first⟩,
      by simp [queueAppend, unlinked, nonempty, last], ?_, ?_, unique, ?_⟩
    · intro p
      by_cases same : p = q
      · subst same; simp [nonempty, split]
      · simp [same, listAppend_other, r.head p]
    · intro p
      by_cases same : p = q
      · subst same
        simp only [listAppend_same, split]
        exact ring_insert ring (split ▸ fresh p)
      · rw [listAppend_other qs e same]
        refine ring_congr (r.ring p) fun a mem => linkBetween_other _ ?_ ?_ ?_
        · exact fun eq => same (r.unique mem (eq ▸ lastMem))
        · exact fun eq => fresh p (eq ▸ mem)
        · exact fun eq => same (r.unique mem (eq ▸ firstMem))
    · intro a out
      have outside : ∀ p, a ∉ qs p := fun p mem => out p (mem_listAppend.mpr (Or.inl mem))
      have az : a ≠ (first :: rest).getLast (by simp) := fun eq => outside q (eq ▸ lastMem)
      have ae : a ≠ e := fun eq => out q (by simp [eq])
      have af : a ≠ first := fun eq => outside q (eq ▸ firstMem)
      exact (linkBetween_other _ az ae af).trans (r.free a outside)

variable [Fintype A]

omit [DecidableEq Q] in
theorem queueSize_eq (r : Represents m qs) (q : Q) :
    queueSize m (m.head q) = .ok (toInt ((qs q).length % 18446744073709551616 : Nat)) := by
  have ring := r.ring q
  have bound := r.length_le q
  rw [r.head q]
  rcases split : qs q with _ | ⟨first, rest⟩
  · simp [queueSize, toInt]
  · rw [split] at ring bound
    have fresh := (List.nodup_cons.mp ring.nodup).1
    have count := countTo_path (Fintype.card A) 1 (ring_path ring) fresh
      (by simp only [List.length_cons] at bound; omega)
    simp only [queueSize, List.head?_cons, count, List.length_cons, Nat.add_comm 1, bind,
      Except.bind]

theorem remove_absent (r : Represents m qs) {q : Q} {e : A} (out : e ∉ qs q) :
    ∃ code < 0, queueRemove m (some q) (some e) = .ok (m, code) := by
  rcases headEq : m.head q with _ | first
  · exact ⟨emptyQueue, by decide, by simp [queueRemove, headEq]⟩
  · have firstMem : first ∈ qs q := List.mem_of_mem_head? (by rw [← r.head q, headEq]; simp)
    by_cases inside : ∃ p, e ∈ qs p
    · obtain ⟨p, mem⟩ := inside
      obtain ⟨pre, post, split⟩ := List.append_of_mem mem
      have ring := r.ring p
      rw [split] at ring
      have turned : Ring m.link (e :: (post ++ pre)) :=
        ring_turned ring
      have bound := turned.nodup.length_le_card
      have foreign : ∀ x ∈ post ++ pre, (x = e || x = first) = false := by
        intro x mx
        have xe : x ≠ e := fun eq => (List.nodup_cons.mp turned.nodup).1 (eq ▸ mx)
        have xp : x ∈ qs p := by
          rw [split]
          simp only [List.mem_append, List.mem_cons] at mx ⊢
          tauto
        have xf : x ≠ first := fun eq => out (r.unique xp (eq ▸ firstMem) ▸ mem)
        simp [xe, xf]
      have path := (List.isChain_cons.mp (ring_path turned))
      have back := walk_path (Fintype.card A) path.2 foreign (by simp)
        (by simp only [List.length_cons] at bound; omega)
      have next : (m.link e).next = (post ++ pre ++ [e]).head? := by
        rcases start : (post ++ pre ++ [e]).head? with _ | n
        · simp at start
        · exact (path.1 n (by rw [start]; rfl)).1
      obtain ⟨n, nextEq⟩ := Option.ne_none_iff_exists'.mp (r.linked mem).1
      obtain ⟨z, prevEq⟩ := Option.ne_none_iff_exists'.mp (r.linked mem).2
      rw [← next, nextEq] at back
      have ef : e ≠ first := fun eq => out (eq ▸ firstMem)
      refine ⟨belongsToAnotherQueue, by decide, ?_⟩
      simp only [queueRemove, headEq, nextEq, prevEq, back]
      simp [ef, bind, Except.bind]
    · have free := r.free e (by simpa using inside)
      exact ⟨notOnQueue, by decide, by simp [queueRemove, headEq, free, Links.free]⟩

omit [Fintype A] in
theorem remove_unique (r : Represents m qs) {q p p' : Q} {e a : A}
    (here : a ∈ listRemove qs q e p) (there : a ∈ listRemove qs q e p') : p = p' :=
  r.unique (r.mem_remove.mp here).1 (r.mem_remove.mp there).1

omit [Fintype A] in
/-- The element is alone in its ring. -/
theorem remove_last (r : Represents m qs) {q : Q} {e : A} (alone : qs q = [e]) :
    Represents ⟨Function.update m.head q none, setPrev (setNext m.link e none) e none⟩
      (listRemove qs q e) := by
  have mem : e ∈ qs q := by simp [alone]
  refine ⟨?_, ?_, r.remove_unique, ?_⟩
  · intro p
    by_cases same : p = q
    · subst same; simp [alone]
    · simp [same, listRemove_other, r.head p]
  · intro p
    by_cases same : p = q
    · subst same
      simp only [listRemove_same, alone, List.erase_cons_head]
      exact ring_nil _
    · rw [listRemove_other qs e same]
      refine ring_congr (r.ring p) fun a memA => ?_
      have ae : a ≠ e := fun eq => same (r.unique memA (eq ▸ mem))
      simp only
      rw [setPrev_other _ _ ae, setNext_other _ _ ae]
  · intro a out
    by_cases ae : a = e
    · subst ae; simp [Links.free, setPrev, setNext]
    · simp only
      rw [setPrev_other _ _ ae, setNext_other _ _ ae]
      exact r.free a fun p memA => out p (r.mem_remove.mpr ⟨memA, fun both => ae both.2⟩)

section Inner
variable {q : Q} {e first n : A} {pre post l : List A}

omit [DecidableEq Q] [DecidableEq A] [Fintype A] in
theorem head_before (r : Represents m qs) (split : qs q = pre ++ e :: post)
    (head : m.head q = some first) : ∃ start, pre ++ [e] = first :: start := by
  rw [r.head q, split] at head
  cases pre with
  | nil =>
    cases head
    exact ⟨[], rfl⟩
  | cons a pre =>
    cases head
    exact ⟨pre ++ [e], rfl⟩

omit [DecidableEq Q] in
/-- The walk runs over what is behind the element and meets the head. -/
theorem walk_head (r : Represents m qs) (split : qs q = pre ++ e :: post)
    (others : post ++ pre = n :: l) (head : m.head q = some first) :
    walk m.link (fun a => a = e || a = first) (Fintype.card A) (some n) = .ok first := by
  obtain ⟨start, firstEq⟩ := r.head_before split head
  have ring := r.ring q
  rw [split] at ring
  have nodup := ring.nodup
  rw [show pre ++ e :: post = (pre ++ [e]) ++ post by simp, List.nodup_append] at nodup
  have whole : List.IsChain (Linked m.link) ((post ++ [first]) ++ start) := by
    have path := (List.isChain_cons.mp (ring_path (ring_turned ring))).2
    rw [show post ++ pre ++ [e] = post ++ (pre ++ [e]) by simp, firstEq] at path
    simpa using path
  have quiet : ∀ x ∈ post, (x = e || x = first) = false := by
    intro x mx
    have xe : x ≠ e := fun eq => nodup.2.2 e (by simp) x mx eq.symm
    have xf : x ≠ first := fun eq => nodup.2.2 first (by simp [firstEq]) x mx eq.symm
    simp [xe, xf]
  have budget : post.length ≤ Fintype.card A := by
    have bound := r.length_le q
    rw [split] at bound
    simp only [List.length_append, List.length_cons] at bound
    omega
  have reach := walk_path _ (List.isChain_append.mp whole).1 quiet (by simp) budget
  have begins : (post ++ [first]).head? = some n := by
    have same : (post ++ (pre ++ [e])).head? = some n := by
      rw [← List.append_assoc, others]; rfl
    rw [firstEq] at same
    cases post with
    | nil => simpa using same
    | cons a post => simpa using same
  rwa [begins] at reach

omit [DecidableEq Q] [Fintype A] in
theorem remove_head (r : Represents m qs) (split : qs q = pre ++ e :: post)
    (others : post ++ pre = n :: l) (head : m.head q = some first) :
    (if e = first then some n else some first) = (pre ++ post).head? := by
  have nodup := (r.ring q).nodup
  rw [split] at nodup
  obtain ⟨start, firstEq⟩ := r.head_before split head
  cases pre with
  | nil =>
    simp only [List.nil_append, List.cons.injEq] at firstEq
    simp only [List.append_nil] at others
    simp [firstEq.1, others]
  | cons a pre =>
    simp only [List.cons_append, List.cons.injEq] at firstEq
    have ea : e ≠ first := by
      rintro rfl
      rw [firstEq.1] at nodup
      simp at nodup
    simp [ea, firstEq.1]

omit [Fintype A] in
/-- The element leaves other elements behind. -/
theorem remove_inner (r : Represents m qs) (split : qs q = pre ++ e :: post)
    (others : post ++ pre = n :: l) (head : m.head q = some first) :
    Represents ⟨if e = first then Function.update m.head q (some n) else m.head,
      unlinkBetween m.link ((n :: l).getLast (by simp)) e n⟩ (listRemove qs q e) := by
  have ring := r.ring q
  rw [split] at ring
  have turned := ring_turned ring
  rw [others] at turned
  have erased : (qs q).erase e = pre ++ post := by
    have notPre : e ∉ pre := fun inPre =>
      (List.nodup_append.mp ring.nodup).2.2 e inPre e (by simp) rfl
    rw [split, List.erase_append_right _ notPre, List.erase_cons_head]
  have mem : e ∈ qs q := by simp [split]
  have member : ∀ x, x ∈ n :: l → x ∈ qs q := by
    intro x mx
    rw [← others] at mx
    rw [split]
    simp only [List.mem_append, List.mem_cons] at mx ⊢
    tauto
  have nMem := member n (by simp)
  have zMem := member _ (List.getLast_mem (List.cons_ne_nil n l))
  refine ⟨?_, ?_, r.remove_unique, ?_⟩
  · intro p
    by_cases same : p = q
    · subst same
      rw [listRemove_same, erased, ← r.remove_head split others head]
      split
      · simp
      · exact head
    · rw [listRemove_other qs e same, ← r.head p]
      by_cases front : e = first <;> simp [front, same]
  · intro p
    by_cases same : p = q
    · subst same
      have cut := ring_delete turned
      rw [listRemove_same, erased]
      have back : (n :: l) ~r pre ++ post := by
        rw [← others]; exact List.isRotated_append
      exact ring_rotated cut back
    · rw [listRemove_other qs e same]
      exact ring_congr (r.ring p) fun a memA => unlinkBetween_other _
        (fun eq => same (r.unique memA (eq ▸ zMem)))
        (fun eq => same (r.unique memA (eq ▸ mem)))
        (fun eq => same (r.unique memA (eq ▸ nMem)))
  · intro a out
    by_cases ae : a = e
    · subst ae; exact unlinkBetween_elem _ _ a n
    · have outside : ∀ p, a ∉ qs p := fun p memA =>
        out p (r.mem_remove.mpr ⟨memA, fun both => ae both.2⟩)
      have az : a ≠ (n :: l).getLast (by simp) := fun eq => outside q (eq ▸ zMem)
      have an : a ≠ n := fun eq => outside q (eq ▸ nMem)
      exact (unlinkBetween_other _ az ae an).trans (r.free a outside)

end Inner

theorem remove_mem (r : Represents m qs) {q : Q} {e : A} (mem : e ∈ qs q) :
    ∃ m', queueRemove m (some q) (some e) = .ok (m', sucess) ∧
      Represents m' (listRemove qs q e) ∧ m'.link e = Links.free := by
  obtain ⟨pre, post, split⟩ := List.append_of_mem mem
  have ring := r.ring q
  rw [split] at ring
  have turned := ring_turned ring
  obtain ⟨first, head⟩ : ∃ first, m.head q = some first := by
    rw [r.head q, split]
    cases pre with
    | nil => exact ⟨e, rfl⟩
    | cons a pre => exact ⟨a, rfl⟩
  rcases others : post ++ pre with _ | ⟨n, l⟩
  · obtain ⟨rfl, rfl⟩ := List.append_eq_nil_iff.mp others
    have self := (Cycle.chain_singleton _ _).mp turned.chain
    obtain ⟨start, firstEq⟩ := r.head_before split head
    cases firstEq
    have here : walk m.link (fun a => a = e || a = e) (Fintype.card A) (some e) = .ok e := by
      cases Fintype.card A <;> simp [walk]
    refine ⟨_, ?_, r.remove_last split, by simp [Links.free, setPrev, setNext]⟩
    simp only [queueRemove, head, self.1, self.2, here, bind, Except.bind]
    simp
  · have found := r.walk_head split others head
    rw [others] at turned
    have ne : n ≠ e := fun eq => (List.nodup_cons.mp turned.nodup).1 (by simp [eq])
    have nextEq : (m.link e).next = some n := (List.isChain_cons_cons.mp (ring_path turned)).1.1
    have prevEq : (m.link e).prev = some ((n :: l).getLast (by simp)) := by
      have prev := ring_head_prev turned
      rwa [List.getLast_cons (List.cons_ne_nil n l)] at prev
    refine ⟨_, ?_, r.remove_inner split others head, unlinkBetween_elem _ _ e n⟩
    simp only [queueRemove, head, nextEq, prevEq, found, bind, Except.bind]
    simp [ne]

end Represents

end QueueModel
