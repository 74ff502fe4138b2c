import PingPong.QueueDestruction

/-!
The steps of the calls on a queue that is being destroyed, one lemma for each kind: sem_down,
sem_up, the accesses to active and to the buffer, and the five steps of mqueue_destroy that
bring it from one stage to the next.
-/
namespace DestructionSafety
open MachineModel CircularList QueueModel KernelModel KernelEffects TaskPlacement SystemModel
open SystemFrames TransitionRuns FiniteTally SemaphoreBalance TaskConservation MessageQueues
open QueueDestruction
variable {N : Type} [DecidableEq N] [Fintype N]
variable {q : Nat} {st : Stage} {a : Observed N} {s s' : System N}

section Accounts

theorem items_entry (before : ItemsCounted q s) {old new : Ctl N} (here : s.ctl s.curr = old)
    (ctl : s'.ctl = Function.update s.ctl s.curr new) (balanced : Balanced s'.kernel (.sItem q))
    (range : intMin ≤ count (.sItem q) s' ∧ count (.sItem q) s' ≤ intMax)
    (item : count (.sItem q) s' + itemShare q new - (buffer q s').length =
      count (.sItem q) s + itemShare q old - (buffer q s).length) : ItemsCounted q s' := by
  subst here
  refine ⟨balanced, range.1, range.2, ?_⟩
  have counted := before.item
  rw [total_update _ ctl]
  omega

theorem held_entry (before : BufferHeld q s) {old new : Ctl N} (here : s.ctl s.curr = old)
    (ctl : s'.ctl = Function.update s.ctl s.curr new) (balanced : Balanced s'.kernel (.sBuffer q))
    (low : intMin ≤ count (.sBuffer q) s')
    (held : count (.sBuffer q) s' + bufferShare q new ≤
      count (.sBuffer q) s + bufferShare q old) : BufferHeld q s' := by
  subst here
  refine ⟨balanced, low, ?_⟩
  have counted := before.held
  rw [total_update _ ctl]
  omega

theorem items_same (before : ItemsCounted q s) {old new : Ctl N} (here : s.ctl s.curr = old)
    (ctl : s'.ctl = Function.update s.ctl s.curr new)
    (sem : s'.kernel.sem (.sItem q) = s.kernel.sem (.sItem q))
    (lists : waiting (.sItem q) s' = waiting (.sItem q) s)
    (item : itemShare q new - (buffer q s').length =
      itemShare q old - (buffer q s).length) : ItemsCounted q s' := by
  have counts : count (.sItem q) s' = count (.sItem q) s := by rw [count, sem]; rfl
  have queue : tasks s'.kernel (.semQueue (.sItem q)) = tasks s.kernel (.semQueue (.sItem q)) :=
    lists
  have held := before.balanced
  refine items_entry before here ctl ⟨by rw [sem]; exact held.active,
    by rw [sem]; exact held.free, by rw [sem, queue]; exact held.waiters⟩ ?_ ?_
  · rw [counts]
    exact ⟨before.low, before.high⟩
  · rw [counts]
    omega

theorem held_same (before : BufferHeld q s) {old new : Ctl N} (here : s.ctl s.curr = old)
    (ctl : s'.ctl = Function.update s.ctl s.curr new)
    (sem : s'.kernel.sem (.sBuffer q) = s.kernel.sem (.sBuffer q))
    (lists : waiting (.sBuffer q) s' = waiting (.sBuffer q) s)
    (held : bufferShare q new ≤ bufferShare q old) : BufferHeld q s' := by
  have counts : count (.sBuffer q) s' = count (.sBuffer q) s := by rw [count, sem]; rfl
  have queue : tasks s'.kernel (.semQueue (.sBuffer q)) =
      tasks s.kernel (.semQueue (.sBuffer q)) := lists
  have balanced := before.balanced
  refine held_entry before here ctl ⟨by rw [sem]; exact balanced.active,
    by rw [sem]; exact balanced.free, by rw [sem, queue]; exact balanced.waiters⟩ ?_ ?_
  · rw [counts]
    exact before.low
  · rw [counts]
    omega

theorem message_is_there (items : ItemsCounted q s)
    (nodup : (waiting (.sItem q) s).Nodup)
    (asleep : ∀ t ∈ waiting (.sItem q) s, waitsAt q (.sItem q) (s.ctl t) = true) {t : Tcb N}
    (copies : atCopy q (s.ctl t) = true) : buffer q s ≠ [] := by
  have sleeps : ∀ u ∈ waiting (.sItem q) s, itemShare q (s.ctl u) = 1 := by
    intro u mem
    have at' := asleep u mem
    unfold waitsAt at at'
    split at at' <;> simp_all [itemShare]
  have fresh : t ∉ waiting (.sItem q) s := by
    intro mem
    have at' := asleep t mem
    unfold waitsAt at at'
    split at at' <;> simp_all [atCopy]
  have own : itemShare q (s.ctl t) = 1 := by
    unfold atCopy at copies
    split at copies <;> simp_all [itemShare]
  have announced := length_le_tally (w := fun _ => itemShare q) (c := s.ctl)
    (l := t :: waiting (.sItem q) s) (List.nodup_cons.mpr ⟨fresh, nodup⟩)
    (fun t => itemShare_nonneg q (s.ctl t)) (fun u mem => by
      rcases List.mem_cons.mp mem with rfl | waits
      · exact own.ge
      · exact (sleeps u waits).ge)
  have waiters := items.balanced.waiters
  have item := items.item
  intro empty
  simp only [count, total, empty, List.length_nil] at item
  simp only [List.length_cons, waiting] at announced
  push_cast at announced item
  omega

theorem one_at_access (held : BufferHeld q s) (nodup : (waiting (.sBuffer q) s).Nodup)
    (asleep : ∀ t ∈ waiting (.sBuffer q) s, waitsAt q (.sBuffer q) (s.ctl t) = true)
    {t u : Tcb N} (first : atAccess q (s.ctl t) = true) (second : atAccess q (s.ctl u) = true)
    (awake : t ∉ waiting (.sBuffer q) s) (awake' : u ∉ waiting (.sBuffer q) s) : t = u := by
  by_contra distinct
  have sleeps : ∀ v ∈ waiting (.sBuffer q) s, bufferShare q (s.ctl v) = 1 := by
    intro v mem
    have at' := asleep v mem
    unfold waitsAt at at'
    split at at' <;> simp_all [bufferShare]
  have takes : ∀ {v}, atAccess q (s.ctl v) = true → bufferShare q (s.ctl v) = 1 := by
    intro v access
    unfold atAccess at access
    split at access <;> simp_all [bufferShare]
  have taken := length_le_tally (w := fun _ => bufferShare q) (c := s.ctl)
    (l := t :: u :: waiting (.sBuffer q) s)
    (by
      simp only [List.nodup_cons, List.mem_cons, not_or]
      exact ⟨⟨distinct, awake⟩, awake', nodup⟩)
    (fun v => bufferShare_nonneg q (s.ctl v)) (fun v mem => by
      rcases List.mem_cons.mp mem with rfl | mem
      · exact (takes first).ge
      rcases List.mem_cons.mp mem with rfl | mem
      · exact (takes second).ge
      · exact (sleeps v mem).ge)
  have waiters := held.balanced.waiters
  have most := held.held
  simp only [count, total] at most
  simp only [List.length_cons, waiting] at taken
  push_cast at taken
  omega

end Accounts

section Calls
variable {old new : Ctl N} {m₁ m₂ : Bool}

omit [DecidableEq N] [Fintype N] in
theorem destroys_none {c : Ctl N} (other : ∀ p point, c ≠ .destroy p point) :
    destroys c = none := by
  unfold destroys
  split
  · exact absurd rfl (other _ _)
  · exact absurd rfl (other _ _)
  · exact absurd rfl (other _ _)
  · rfl

/-- A call that was let through is before its test of active. -/
theorem cut_early (std : Standing q st a) {t : Tcb N} (here : a.system.ctl t = old)
    (late : atCut q old = false) : a.cut t = false := by
  by_contra through
  have at' := ((std.each t).cut (by simpa using through)).2
  rw [here, late] at at'
  cases at'

theorem standing_run (std : Standing q st a) {c : Bool} (conserved : Conserved s')
    (here : a.system.ctl a.system.curr = old)
    (ctl : s'.ctl = Function.update a.system.ctl a.system.curr new)
    (mark : c = (onQueue q new && (a.cut a.system.curr ||
      cuts q a.system (.run m₁ m₂) a.system.curr)))
    (before : ∀ p point, old ≠ .destroy p point) (after : ∀ p point, new ≠ .destroy p point)
    (sems : ∀ x, (s'.kernel.sem x).active = (a.system.kernel.sem x).active)
    (waits : ∀ x, semClient x = .queue q → ∀ t ∈ waiting x s', t ∈ waiting x a.system ∨
      t = a.system.curr ∧ st.opens x = true ∧ waitsAt q x new = true ∧ c = false)
    (active : (s'.mqueue q).active = (a.system.mqueue q).active)
    (emptied : st.ends → buffer q s' = [])
    (answered : a.cut a.system.curr = true → ∀ code, new = .body code → code = -1)
    (cut : c = true → st ≠ .whole ∧ atCut q new = true)
    (stocked : c = false → atCopy q new = true → st.opens (.sItem q) = false → buffer q s' ≠ [])
    (leaves : c = false → st.ends → atAccess q new = false)
    (others : ∀ t, t ≠ a.system.curr → a.cut t = false → atCopy q (a.system.ctl t) = true →
      st.opens (.sItem q) = false → buffer q s' = [] → buffer q a.system = [])
    (items : st.opens (.sItem q) = true → ItemsCounted q s')
    (held : st = .whole → BufferHeld q s')
    (lone : st ≠ .whole → c = false → atAccess q new = true →
      a.cut a.system.curr = false ∧ atAccess q old = true) :
    Standing q st (observe q a (.run m₁ m₂) s') := by
  have calm : destroys (a.system.ctl a.system.curr) = none := by
    rw [here]
    exact destroys_none before
  have quiet : ∀ t, t ≠ a.system.curr → cuts q a.system (.run m₁ m₂) t = false := by
    intro t other
    simp only [cuts, calm, Bool.false_or]
    split
    · simp [other]
    · rfl
  have returned : (observe q a (.run m₁ m₂) s').returned = a.returned := by
    simp only [observe, endsDestroy, here]
    split
    · exact absurd rfl (before _ _)
    · exact Bool.or_false _
  refine standing_entry std conserved here ctl
    (by rw [observe_cut std ctl quiet, mark]) (fun x _ => sems x) waits active emptied ?_ ?_
    returned ?_ ⟨fun p same => absurd same (after q p), cut, stocked, leaves⟩ others items held lone
  · intro no
    exact ⟨by simpa [observe, beginsDestroy] using no, fun p => after q p⟩
  · intro p same
    exact absurd same (after q p)
  · simp only [observe]
    intro code mem
    rcases List.mem_append.mp mem with earlier | now
    · exact std.answered code earlier
    · split at now
      · rename_i through
        simp only [answers, ctl, Function.update_self] at now
        split at now
        · rename_i code'
          rw [List.mem_singleton.mp now]
          exact answered through code' rfl
        · cases now
      · cases now

theorem standing_local (std : Standing q st a) (conserved : Conserved s')
    (here : a.system.ctl a.system.curr = old)
    (ctl : s'.ctl = Function.update a.system.ctl a.system.curr new)
    (kernel : s'.kernel = a.system.kernel)
    (before : ∀ p point, old ≠ .destroy p point) (after : ∀ p point, new ≠ .destroy p point)
    (down : downs old = none)
    (active : (s'.mqueue q).active = (a.system.mqueue q).active)
    (emptied : st.ends → buffer q s' = [])
    (answered : a.cut a.system.curr = true → new = .body (-1))
    (stocked : a.cut a.system.curr = false → atCopy q new = true →
      st.opens (.sItem q) = false → buffer q s' ≠ [])
    (access : atAccess q new = true → a.cut a.system.curr = false ∧ atAccess q old = true)
    (others : ∀ t, t ≠ a.system.curr → a.cut t = false → atCopy q (a.system.ctl t) = true →
      st.opens (.sItem q) = false → buffer q s' = [] → buffer q a.system = [])
    (item : st.opens (.sItem q) = true → itemShare q new - (buffer q s').length =
      itemShare q old - (buffer q a.system).length)
    (held : bufferShare q new ≤ bufferShare q old) :
    Standing q st (observe q a (.run m₁ m₂) s') := by
  have calm : cuts q a.system (.run m₁ m₂) a.system.curr = false := by
    rw [cuts, here, down, destroys_none before]
    rfl
  -- a call that was let through has returned
  have tight : false = (onQueue q new && (a.cut a.system.curr || false)) := by
    cases through : a.cut a.system.curr with
    | false => exact (Bool.and_false _).symm
    | true => rw [answered through]; rfl
  have lists : ∀ x, waiting x s' = waiting x a.system := fun x => by rw [waiting, kernel]
  refine standing_run std (c := false) conserved here ctl
    (by rw [calm]; exact tight) before after (fun x => by rw [kernel])
    (fun x _ t mem => Or.inl (by rw [← lists x]; exact mem)) active emptied ?_ ?_ ?_ ?_ others
    (fun open' => items_same (std.items open') here ctl (by rw [kernel]) (lists _)
      (item open'))
    (fun whole => held_same (std.held whole) here ctl (by rw [kernel]) (lists _) held)
    (fun _ _ => access)
  · intro through code same
    rw [answered through] at same
    cases same
    rfl
  · intro off
    cases off
  · intro _ copies shut
    refine stocked ?_ copies shut
    by_contra through
    rw [answered (by simpa using through)] at copies
    cases copies
  · intro _ ends
    by_contra inside
    obtain ⟨tight, access'⟩ := access (by simpa using inside)
    rw [← here, (std.each _).emptied tight ends] at access'
    cases access'

omit [DecidableEq N] [Fintype N] in
theorem not_open {x : SemAddr} (shut : st.opens x = false) : st ≠ .whole := by
  rintro rfl
  cases shut

theorem down_shut (std : Standing q st a) {x : SemAddr} (mine : semClient x = .queue q)
    (here : a.system.ctl a.system.curr = old) (down : downs old = some x)
    (shut : st.opens x = false) (before : ∀ p point, old ≠ .destroy p point)
    (after : ∀ p point, new ≠ .destroy p point) (next : atCut q new = true)
    (item : x ≠ .sItem q → itemShare q new = itemShare q old)
    (run : (semDown a.system.kernel (some x)).map (fun r =>
      (a.system.withKernel r.1).goto a.system.curr new) = .ok s') (conserved : Conserved s') :
    Standing q st (observe q a (.run m₁ m₂) s') := by
  have closed : (a.system.kernel.sem x).active = 0 := by
    by_contra active
    rw [(std.sems x mine).mp active] at shut
    cases shut
  rw [semDown_closed closed] at run
  cases run
  have marked : cuts q a.system (.run m₁ m₂) a.system.curr = true := by
    simp [cuts, here, down, mine, closed]
  have grows := not_open shut
  refine standing_run std (c := true) conserved here rfl ?_ before after (fun _ => rfl)
    (fun _ _ t mem => Or.inl mem) rfl std.emptied ?_ (fun _ => ⟨grows, next⟩) ?_ ?_
    (fun _ _ _ _ _ empty => empty) ?_ (fun whole => absurd whole grows) ?_
  · rw [marked, Bool.or_true, Bool.and_true, (atCut_client next).2]
  · rintro _ code rfl
    cases next
  · intro off
    cases off
  · intro off
    cases off
  · intro open'
    refine items_same (std.items open') here rfl rfl rfl ?_
    rw [item]
    · rfl
    · rintro rfl
      rw [open'] at shut
      cases shut
  · intro _ off
    cases off

theorem down_open (std : Standing q st a) {x : SemAddr} (mine : semClient x = .queue q)
    (here : a.system.ctl a.system.curr = old) (down : downs old = some x)
    (opens : st.opens x = true) (user : role old ≠ .dispatcher)
    (fits : CountersFit q a.system (.run m₁ m₂))
    (before : ∀ p point, old ≠ .destroy p point) (after : ∀ p point, new ≠ .destroy p point)
    (waits : waitsAt q x new = true) (first : atCut q old = true → x = .sBuffer q)
    (access : atAccess q new = true → x = .sBuffer q)
    (copies : atCopy q new = true → x = .sBuffer q)
    (item : itemShare q new = itemShare q old + if x = .sItem q then 1 else 0)
    (held : bufferShare q new = bufferShare q old + if x = .sBuffer q then 1 else 0)
    (run : (semDown a.system.kernel (some x)).map (fun r =>
      (a.system.withKernel r.1).goto a.system.curr new) = .ok s') (conserved : Conserved s') :
    Standing q st (observe q a (.run m₁ m₂) s') := by
  obtain ⟨⟨k, r⟩, downed, rfl⟩ := map_ok run
  have user' : a.system.kernel.curr ≠ .dispatcherTask :=
    not_dispatcher std.conserved (t := a.system.curr) (by rw [here]; exact user)
  have placed := std.conserved.placed
  have active := (std.sems x mine).mpr opens
  have kept := semDown_any placed user' downed
  have whole : x = .sBuffer q → st = .whole := by
    rintro rfl
    cases st <;> first | rfl | cases opens
  have low : x = .sBuffer q ∨ x = .sItem q → intMin < count x a.system :=
    fun which => fits.1 x (by rw [here]; exact down) which active
  have uncut : a.cut a.system.curr = false := by
    by_contra through
    obtain ⟨grows, at'⟩ := (std.each _).cut (by simpa using through)
    rw [here] at at'
    exact grows (whole (first at'))
  have unmarked : cuts q a.system (.run m₁ m₂) a.system.curr = false := by
    simp [cuts, here, down, destroys_none before, active]
  refine standing_run std (c := false) conserved here rfl ?_ before after
    (semDown_active placed user' downed) ?_ rfl std.emptied ?_ ?_ ?_ ?_
    (fun _ _ _ _ _ empty => empty) ?_ ?_ ?_
  · rw [uncut, unmarked, Bool.or_false, Bool.and_false]
  · intro y other t mem
    by_cases same : y = x
    · subst same
      exact (semDown_waits placed user' downed t mem).imp id fun own => ⟨own, opens, waits, rfl⟩
    · have list : tasks k (.semQueue y) = tasks a.system.kernel (.semQueue y) :=
        kept.lists (.semQueue y) (by simp) (by simpa using same)
      exact Or.inl (by rw [waiting, ← list]; exact mem)
  · rintro _ code rfl
    rw [show waitsAt q x (.body code : Ctl N) = false by cases x <;> rfl] at waits
    cases waits
  · intro off
    cases off
  · intro _ at' shut
    rw [whole (copies at')] at shut
    cases shut
  · intro _ ends
    by_contra inside
    rw [whole (access (by simpa using inside))] at ends
    rcases ends with same | same <;> cases same
  · intro open'
    have items := std.items open'
    by_cases same : x = .sItem q
    · subst same
      obtain ⟨_, balanced, value, _⟩ := balanced_down placed user' items.balanced
        (low (Or.inr rfl)) items.high downed
      have lower := items.low
      have higher := items.high
      have least := low (Or.inr rfl)
      have counts : count (.sItem q) ((a.system.withKernel k).goto a.system.curr new) =
          count (.sItem q) a.system - 1 := value
      refine items_entry items here rfl balanced ?_ ?_
      · rw [counts]
        exact ⟨by omega, by omega⟩
      · rw [counts, item, if_pos rfl]
        change _ - ((buffer q a.system).length : Int) = _
        omega
    · refine items_same items here rfl (kept.sem _ (by simpa using Ne.symm same))
        (kept.lists (.semQueue (.sItem q)) (by simp) (by simpa using Ne.symm same)) ?_
      rw [item, if_neg same, Int.add_zero]
      rfl
  · intro untouched
    have before' := std.held untouched
    by_cases same : x = .sBuffer q
    · subst same
      have most := before'.held
      have share : 0 ≤ total (bufferShare q) a.system :=
        tally_nonneg fun t => bufferShare_nonneg q (a.system.ctl t)
      obtain ⟨_, balanced, value, _⟩ := balanced_down placed user' before'.balanced
        (low (Or.inl rfl)) (by simp only [count, intMax] at most ⊢; omega) downed
      have least := low (Or.inl rfl)
      have counts : count (.sBuffer q) ((a.system.withKernel k).goto a.system.curr new) =
          count (.sBuffer q) a.system - 1 := value
      refine held_entry before' here rfl balanced ?_ ?_
      · rw [counts]
        omega
      · rw [counts, held, if_pos rfl]
        omega
    · refine held_same before' here rfl (kept.sem _ (by simpa using Ne.symm same))
        (kept.lists (.semQueue (.sBuffer q)) (by simp) (by simpa using Ne.symm same)) ?_
      rw [held, if_neg same, Int.add_zero]
  · intro grows _ inside
    exact absurd (whole (access inside)) grows

theorem standing_up (std : Standing q st a) {x : SemAddr} (mine : semClient x = .queue q)
    (here : a.system.ctl a.system.curr = old) (down : downs old = none)
    (late : atCut q old = false) (fits : x = .sItem q → (a.system.kernel.sem x).active ≠ 0 →
      count x a.system < intMax)
    (before : ∀ p point, old ≠ .destroy p point) (after : ∀ p point, new ≠ .destroy p point)
    (access : atAccess q new = false) (copies : atCopy q new = false)
    (item : itemShare q new = itemShare q old - if x = .sItem q then 1 else 0)
    (held : bufferShare q new = bufferShare q old - if x = .sBuffer q then 1 else 0)
    (run : (semUp a.system.kernel (some x)).map (fun r =>
      (a.system.withKernel r.1).goto a.system.curr new) = .ok s') (conserved : Conserved s') :
    Standing q st (observe q a (.run m₁ m₂) s') := by
  obtain ⟨⟨k, r⟩, upped, rfl⟩ := map_ok run
  have placed := std.conserved.placed
  have kept := (semUp_any placed upped).2
  have uncut := cut_early std here late
  have unmarked : cuts q a.system (.run m₁ m₂) a.system.curr = false := by
    simp [cuts, here, down, destroys_none before]
  refine standing_run std (c := false) conserved here rfl ?_ before after
    (semUp_active placed upped) ?_ rfl std.emptied ?_ ?_ ?_ (fun _ _ => access)
    (fun _ _ _ _ _ empty => empty) ?_ ?_ ?_
  · rw [uncut, unmarked, Bool.or_false, Bool.and_false]
  · intro y other t mem
    by_cases same : y = x
    · subst same
      exact Or.inl (semUp_waits placed upped t mem)
    · have list : tasks k (.semQueue y) = tasks a.system.kernel (.semQueue y) :=
        kept.lists (.semQueue y) (by simp) (by simpa using same)
      exact Or.inl (by rw [waiting, ← list]; exact mem)
  · intro through
    rw [uncut] at through
    cases through
  · intro off
    cases off
  · intro _ at'
    rw [copies] at at'
    cases at'
  · intro open'
    have items := std.items open'
    by_cases same : x = .sItem q
    · subst same
      have lower := items.low
      have more := fits rfl items.balanced.active
      obtain ⟨_, balanced, value, _⟩ := balanced_up placed items.balanced lower more upped
      have counts : count (.sItem q) ((a.system.withKernel k).goto a.system.curr new) =
          count (.sItem q) a.system + 1 := value
      refine items_entry items here rfl balanced ?_ ?_
      · rw [counts]
        exact ⟨by omega, by omega⟩
      · rw [counts, item, if_pos rfl]
        change _ - ((buffer q a.system).length : Int) = _
        omega
    · refine items_same items here rfl (kept.sem _ (by simpa using Ne.symm same))
        (kept.lists (.semQueue (.sItem q)) (by simp) (by simpa using Ne.symm same)) ?_
      rw [item, if_neg same, Int.sub_zero]
      rfl
  · intro untouched
    have before' := std.held untouched
    by_cases same : x = .sBuffer q
    · subst same
      have lower := before'.low
      have most := before'.held
      have own := le_tally (w := fun _ => bufferShare q) (c := a.system.ctl)
        (fun t => bufferShare_nonneg q (a.system.ctl t)) a.system.curr
      have fewer := bufferShare_nonneg q new
      rw [here] at own
      rw [if_pos rfl] at held
      simp only [total] at most
      obtain ⟨_, balanced, value, _⟩ := balanced_up placed before'.balanced lower
        (by simp only [count, intMax] at most ⊢; omega) upped
      have counts : count (.sBuffer q) ((a.system.withKernel k).goto a.system.curr new) =
          count (.sBuffer q) a.system + 1 := value
      refine held_entry before' here rfl balanced ?_ ?_
      · rw [counts]
        omega
      · rw [counts, held]
        omega
    · refine held_same before' here rfl (kept.sem _ (by simpa using Ne.symm same))
        (kept.lists (.semQueue (.sBuffer q)) (by simp) (by simpa using Ne.symm same)) ?_
      rw [held, if_neg same, Int.sub_zero]
  · intro _ _ inside
    rw [access] at inside
    cases inside

theorem standing_enter (std : Standing q st a) {c : Call N} {code : Int}
    (here : a.system.ctl a.system.curr = .body code)
    (conserved : Conserved (a.system.goto a.system.curr new))
    (fresh : ∀ p, new = .destroy q p → st = stageAt p ∧ a.begun = false ∧
      beginsDestroy q (.call c : Label N) = true) (access : atAccess q new = false)
    (copies : atCopy q new = false) (item : itemShare q new = 0) (held : bufferShare q new = 0) :
    Standing q st (observe q a (.call c) (a.system.goto a.system.curr new)) := by
  have uncut := cut_early std here rfl
  refine standing_entry std (c := false) conserved here rfl ?_ (fun _ _ => rfl)
    (fun _ _ t mem => Or.inl mem) rfl std.emptied ?_ ?_ ?_ ?_ ⟨?_, ?_, ?_, fun _ _ => access⟩
    (fun _ _ _ _ _ empty => empty) ?_ ?_ ?_
  · rw [observe_cut std rfl (fun _ _ => rfl), uncut]
    simp [cuts]
  · intro no
    obtain ⟨before, calls⟩ := Bool.or_eq_false_iff.mp no
    refine ⟨before, fun p same => ?_⟩
    rw [(fresh p same).2.2] at calls
    cases calls
  · intro p same
    exact Or.inr (fresh p same).2.1
  · simp [observe, endsDestroy]
  · simp only [observe, uncut, Bool.false_eq_true, if_false, List.append_nil]
    exact std.answered
  · intro p same
    exact (fresh p same).1
  · intro off
    cases off
  · intro _ at'
    rw [copies] at at'
    cases at'
  · intro open'
    exact items_same (std.items open') here rfl rfl rfl (by rw [item]; rfl)
  · intro untouched
    exact held_same (std.held untouched) here rfl rfl rfl (by rw [held]; rfl)
  · intro _ _ inside
    rw [access] at inside
    cases inside

theorem standing_down (std : Standing q st a) {x : SemAddr} (mine : semClient x = .queue q)
    (here : a.system.ctl a.system.curr = old) (down : downs old = some x)
    (user : role old ≠ .dispatcher) (fits : CountersFit q a.system (.run m₁ m₂))
    (before : ∀ p point, old ≠ .destroy p point) (after : ∀ p point, new ≠ .destroy p point)
    (waits : waitsAt q x new = true) (first : atCut q old = true → x = .sBuffer q)
    (access : atAccess q new = true → x = .sBuffer q)
    (copies : atCopy q new = true → x = .sBuffer q)
    (item : itemShare q new = itemShare q old + if x = .sItem q then 1 else 0)
    (held : bufferShare q new = bufferShare q old + if x = .sBuffer q then 1 else 0)
    (run : (semDown a.system.kernel (some x)).map (fun r =>
      (a.system.withKernel r.1).goto a.system.curr new) = .ok s') (conserved : Conserved s') :
    Standing q st (observe q a (.run m₁ m₂) s') := by
  cases opens : st.opens x with
  | true =>
    exact down_open std mine here down opens user fits before after waits first access copies item
      held run conserved
  | false =>
    refine down_shut std mine here down opens before after (waits_cut waits) (fun other => ?_) run
      conserved
    rw [item, if_neg other, Int.add_zero]

theorem standing_send (std : Standing q st a) {m : Nat} {point : SendPoint}
    (here : a.system.ctl a.system.curr = .send q m point) (conserved : Conserved s')
    (fits : CountersFit q a.system (.run m₁ m₂)) (late : TestsLate q a (.run m₁ m₂))
    (run : mqueueSendStep a.system q m m₁ m₂ point = .ok s') :
    Standing q st (observe q a (.run m₁ m₂) s') := by
  cases point with
  | vaga =>
    exact standing_down std rfl here rfl (by simp [role]) fits (by simp) (by simp)
      (by simp [waitsAt]) (by simp [atCut]) (by simp [atAccess]) (by simp [atCopy])
      (by simp [itemShare]) (by simp [bufferShare]) run conserved
  | buffer =>
    exact standing_down std rfl here rfl (by simp [role]) fits (by simp) (by simp)
      (by simp [waitsAt]) (fun _ => rfl) (fun _ => rfl) (fun _ => rfl) (by simp [itemShare])
      (by simp [bufferShare]) run conserved
  | check =>
    have later : a.cut a.system.curr = true → (a.system.mqueue q).active = 0 := by
      simpa [TestsLate, here] using late
    simp only [mqueueSendStep, Except.ok.injEq] at run
    split at run
    · subst run
      exact standing_local std conserved here rfl rfl (by simp) (by simp) rfl rfl std.emptied
        (fun _ => rfl) (by simp [atCopy]) (by simp [atAccess]) (fun _ _ _ _ _ empty => empty)
        (fun _ => by simp [itemShare, buffer, System.answer]) (by simp [bufferShare])
    · rename_i active
      have uncut : a.cut a.system.curr = false := by
        by_contra through
        exact active (later (by simpa using through))
      subst run
      exact standing_local std conserved here rfl rfl (by simp) (by simp) rfl rfl std.emptied
        (fun through => by rw [uncut] at through; cases through) (by simp [atCopy])
        (fun _ => ⟨uncut, by simp [atAccess]⟩) (fun _ _ _ _ _ empty => empty)
        (fun _ => by simp [itemShare, buffer]) (by simp [bufferShare])
  | store =>
    have uncut := cut_early std here rfl
    have more : ¬ st.ends := fun ends => by
      have outside := (std.each _).emptied uncut ends
      rw [here] at outside
      simp [atAccess] at outside
    have failed : ∀ {code : Int}, s' = a.system.answer code →
        Standing q st (observe q a (.run m₁ m₂) s') := by
      rintro code rfl
      exact standing_local std conserved here rfl rfl (by simp) (by simp) rfl rfl std.emptied
        (fun through => by rw [uncut] at through; cases through) (by simp [atCopy])
        (by simp [atAccess]) (fun _ _ _ _ _ empty => empty)
        (fun _ => by simp [itemShare, buffer, System.answer]) (by simp [bufferShare])
    simp only [mqueueSendStep] at run
    split at run
    · cases run; exact failed rfl
    · split at run
      · cases run; exact failed rfl
      · cases run
        refine standing_local std conserved here rfl rfl (by simp) (by simp) rfl ?_
          (fun ends => absurd ends more) (fun through => by rw [uncut] at through; cases through)
          (by simp [atCopy]) (by simp [atAccess]) ?_ (fun _ => ?_) (by simp [bufferShare])
        · simp [System.setMqueue]
        · intro _ _ _ _ _ empty
          simp [buffer, System.setMqueue] at empty
        · simp [itemShare, buffer, System.setMqueue]
  | upBuffer =>
    exact standing_up std rfl here rfl rfl (by simp) (by simp) (by simp) rfl rfl
      (by simp [itemShare]) (by simp [bufferShare]) run conserved
  | upItem =>
    simp only [mqueueSendStep, up_answer _ std.conserved] at run
    refine standing_up std rfl here rfl rfl ?_ (by simp) (by simp) rfl rfl
      (by simp [itemShare]) (by simp [bufferShare]) run conserved
    intro _ active
    have fit := fits.2
    rw [here] at fit
    exact fit rfl active

theorem standing_recv (std : Standing q st a) {m : Nat} {point : RecvPoint}
    (here : a.system.ctl a.system.curr = .recv q m point) (conserved : Conserved s')
    (fits : CountersFit q a.system (.run m₁ m₂)) (late : TestsLate q a (.run m₁ m₂))
    (run : mqueueRecvStep a.system q m point = .ok s') :
    Standing q st (observe q a (.run m₁ m₂) s') := by
  cases point with
  | item =>
    exact standing_down std rfl here rfl (by simp [role]) fits (by simp) (by simp)
      (by simp [waitsAt]) (by simp [atCut]) (by simp [atAccess]) (by simp [atCopy])
      (by simp [itemShare]) (by simp [bufferShare]) run conserved
  | buffer =>
    exact standing_down std rfl here rfl (by simp [role]) fits (by simp) (by simp)
      (by simp [waitsAt]) (fun _ => rfl) (fun _ => rfl) (fun _ => rfl) (by simp [itemShare])
      (by simp [bufferShare]) run conserved
  | check =>
    have later : a.cut a.system.curr = true → (a.system.mqueue q).active = 0 := by
      simpa [TestsLate, here] using late
    simp only [mqueueRecvStep, Except.ok.injEq] at run
    split at run
    · rename_i closed
      have shut : st.opens (.sItem q) = false := by
        have last : st = .closed := by
          by_contra more
          exact std.active.mpr more closed
        rw [last]
        rfl
      subst run
      exact standing_local std conserved here rfl rfl (by simp) (by simp) rfl rfl std.emptied
        (fun _ => rfl) (by simp [atCopy]) (by simp [atAccess]) (fun _ _ _ _ _ empty => empty)
        (fun open' => by rw [shut] at open'; cases open') (by simp [bufferShare])
    · rename_i active
      have uncut : a.cut a.system.curr = false := by
        by_contra through
        exact active (later (by simpa using through))
      have stocked := (std.each a.system.curr).stocked
      rw [here] at stocked
      subst run
      exact standing_local std conserved here rfl rfl (by simp) (by simp) rfl rfl std.emptied
        (fun through => by rw [uncut] at through; cases through)
        (fun tight _ => stocked tight (by simp [atCopy]))
        (fun _ => ⟨uncut, by simp [atAccess]⟩) (fun _ _ _ _ _ empty => empty)
        (fun _ => by simp [itemShare, buffer]) (by simp [bufferShare])
  | take =>
    have uncut := cut_early std here rfl
    have more : ¬ st.ends := fun ends => by
      have outside := (std.each _).emptied uncut ends
      rw [here] at outside
      simp [atAccess] at outside
    simp only [mqueueRecvStep] at run
    split at run
    · cases run
    · rename_i first rest split
      have content : buffer q a.system = first :: rest := split
      cases run
      refine standing_local std conserved here rfl rfl (by simp) (by simp) rfl ?_
        (fun ends => absurd ends more) (fun through => by rw [uncut] at through; cases through)
        (by simp [atCopy]) (by simp [atAccess]) ?_ (fun _ => ?_) (by simp [bufferShare])
      · simp [System.setMqueue]
      · -- nobody else is on its way to the buffer
        intro t other tight copies shut _
        refine absurd (std.lone (not_open shut) t _ tight uncut ?_ ?_) other
        · exact atCopy_access copies
        · rw [here]
          simp [atAccess]
      · rw [content]
        simp [itemShare, buffer, System.setMqueue]
  | upBuffer =>
    exact standing_up std rfl here rfl rfl (by simp) (by simp) (by simp) rfl rfl
      (by simp [itemShare]) (by simp [bufferShare]) run conserved
  | upVaga =>
    simp only [mqueueRecvStep, up_answer _ std.conserved] at run
    exact standing_up std rfl here rfl rfl (by simp) (by simp) (by simp) rfl rfl
      (by simp [itemShare]) (by simp [bufferShare]) run conserved

end Calls

section Destroyer
variable {st' : Stage} {p : DestroyPoint} {new : Ctl N} {m₁ m₂ : Bool}

theorem standing_advance (std : Standing q st a) (conserved : Conserved s')
    (here : a.system.ctl a.system.curr = .destroy q p)
    (ctl : s'.ctl = Function.update a.system.ctl a.system.curr new)
    (next : ∀ p', new = .destroy q p' → st' = stageAt p') (off : onQueue q new = false)
    (grows : st' ≠ .whole) (same : buffer q s' = buffer q a.system)
    (sems : ∀ x, semClient x = .queue q →
      ((s'.kernel.sem x).active ≠ 0 ↔ st'.opens x = true))
    (waits : ∀ x, semClient x = .queue q → ∀ t ∈ waiting x s', t ∈ waiting x a.system ∧
      st'.opens x = true ∧ cuts q a.system (.run m₁ m₂) t = false)
    (active : (s'.mqueue q).active ≠ 0 ↔ st' ≠ .closed)
    (emptied : st'.ends → buffer q s' = [])
    (returned : (observe q a (.run m₁ m₂) s').returned = true → st' = .closed)
    (cut : ∀ t, cuts q a.system (.run m₁ m₂) t = true → ∃ x, semClient x = .queue q ∧
      t ∈ waiting x a.system)
    (stocked : ∀ t, a.cut t = false → cuts q a.system (.run m₁ m₂) t = false →
      atCopy q (a.system.ctl t) = true → st'.opens (.sItem q) = false →
      st.opens (.sItem q) = false ∨ buffer q a.system ≠ [])
    (access : st'.ends → ∀ t, a.cut t = false → atAccess q (a.system.ctl t) = false)
    (items : st'.opens (.sItem q) = true → ItemsCounted q s')
    (lone : ∀ t u, a.cut t = false → a.cut u = false →
      cuts q a.system (.run m₁ m₂) t = false → cuts q a.system (.run m₁ m₂) u = false →
      atAccess q (a.system.ctl t) = true → atAccess q (a.system.ctl u) = true → t = u) :
    Standing q st' (observe q a (.run m₁ m₂) s') := by
  have ctl' : (observe q a (.run m₁ m₂) s').system.ctl =
      Function.update a.system.ctl a.system.curr new := ctl
  have begun : a.begun = true := by
    by_contra no
    exact (std.begun (by simpa using no)).2 _ p here
  have uncut : a.cut a.system.curr = false := cut_early std here rfl
  -- the destroyer has no mark, and another task gets one where it waits
  have marked : ∀ t, (observe q a (.run m₁ m₂) s').cut t =
      if t = a.system.curr then false else
        onQueue q (a.system.ctl t) && (a.cut t || cuts q a.system (.run m₁ m₂) t) := by
    intro t
    simp only [observe, ctl, Function.update_apply]
    split
    · rw [off, Bool.false_and]
    · rfl
  have kept : ∀ {t}, t ≠ a.system.curr → (observe q a (.run m₁ m₂) s').cut t = false →
      onQueue q (a.system.ctl t) = true →
      a.cut t = false ∧ cuts q a.system (.run m₁ m₂) t = false := by
    intro t other no on
    rw [marked, if_neg other, on, Bool.true_and] at no
    exact Bool.or_eq_false_iff.mp no
  have offAccess : atAccess q new = false := by
    by_contra inside
    rw [atAccess_on (by simpa using inside)] at off
    cases off
  have alone : ∀ {t p'}, a.system.ctl t = .destroy q p' → t = a.system.curr :=
    fun there => std.single _ _ _ _ there here
  refine ⟨conserved, sems, ?_, active, emptied, ?_, ?_, returned, ?_, ?_, items,
    fun untouched => absurd untouched grows, fun _ => ?_⟩
  · intro x mine t mem
    obtain ⟨old, open', quiet⟩ := waits x mine t mem
    have other : t ≠ a.system.curr := by
      rintro rfl
      exact current_nowhere_else std.conserved.placed (by simp) old
    obtain ⟨_, at', tight⟩ := std.asleep x mine t old
    refine ⟨open', ?_, ?_⟩
    · rw [ctl', Function.update_of_ne other]
      exact at'
    · rw [marked, if_neg other, tight, quiet]
      exact Bool.and_false _
  · intro no
    simp only [observe, begun, Bool.true_or] at no
    cases no
  · intro t u p₁ p₂ first second
    rw [ctl', Function.update_apply] at first second
    split at first
    · rename_i mine
      split at second
      · rename_i mine'
        rw [mine, mine']
      · rw [mine]
        exact (alone second).symm
    · rename_i other
      exact absurd (alone first) other
  · simp only [observe, uncut, Bool.false_eq_true, if_false, List.append_nil]
    exact std.answered
  · intro t
    rw [ctl', Function.update_apply]
    split
    · rename_i own
      refine ⟨fun p' there => next p' there, ?_, ?_, fun _ _ => offAccess⟩
      · rw [marked, if_pos own]
        intro impossible
        cases impossible
      · intro _ copies
        rw [atCopy_access copies] at offAccess
        cases offAccess
    · rename_i other
      refine ⟨fun p' there => absurd (alone there) other, ?_, ?_, ?_⟩
      · rw [marked, if_neg other, Bool.and_eq_true, Bool.or_eq_true]
        rintro ⟨_, through | now⟩
        · exact ⟨grows, ((std.each t).cut through).2⟩
        · obtain ⟨x, mine, mem⟩ := cut t now
          exact ⟨grows, waits_cut (std.asleep x mine t mem).2.1⟩
      · intro no copies shut
        obtain ⟨tight, quiet⟩ := kept other no (atAccess_on (atCopy_access copies))
        change buffer q s' ≠ []
        rw [same]
        rcases stocked t tight quiet copies shut with earlier | there
        · exact (std.each t).stocked tight copies earlier
        · exact there
      · intro no ends
        by_contra inside
        have inside' : atAccess q (a.system.ctl t) = true := by simpa using inside
        have outside := access ends t (kept other no (atAccess_on inside')).1
        rw [inside'] at outside
        cases outside
  · intro t u cutT cutU first second
    have own : ∀ {v}, atAccess q ((observe q a (.run m₁ m₂) s').system.ctl v) = true →
        v ≠ a.system.curr ∧ atAccess q (a.system.ctl v) = true := by
      intro v inside
      rw [ctl', Function.update_apply] at inside
      split at inside
      · rw [offAccess] at inside
        cases inside
      · rename_i other
        exact ⟨other, inside⟩
    obtain ⟨otherT, insideT⟩ := own first
    obtain ⟨otherU, insideU⟩ := own second
    obtain ⟨tightT, quietT⟩ := kept otherT cutT (atAccess_on insideT)
    obtain ⟨tightU, quietU⟩ := kept otherU cutU (atAccess_on insideU)
    exact lone t u tightT tightU quietT quietU insideT insideU

theorem standing_semDestroy (std : Standing q st a) {x : SemAddr} {p' : DestroyPoint}
    (mine : semClient x = .queue q) (here : a.system.ctl a.system.curr = .destroy q p)
    (which : destroys (a.system.ctl a.system.curr) = some x) (opens : st.opens x = true)
    (next : ∀ y, semClient y = .queue q → (st'.opens y = true ↔ st.opens y = true ∧ y ≠ x))
    (point : st' = stageAt p') (more : ¬ st'.ends) (access : st = .whole → x = .sBuffer q)
    (run : (semDestroy a.system.kernel (some x)).map (fun r =>
      (a.system.withKernel r.1).goto a.system.curr (.destroy q p')) = .ok s')
    (conserved : Conserved s') : Standing q st' (observe q a (.run m₁ m₂) s') := by
  obtain ⟨⟨k, r⟩, destroyed, rfl⟩ := map_ok run
  have placed := std.conserved.placed
  have active := (std.sems x mine).mpr opens
  obtain ⟨_, kept, off, empty⟩ := semDestroy_empties placed active destroyed
  have lists : ∀ y, y ≠ x → tasks k (.semQueue y) = tasks a.system.kernel (.semQueue y) :=
    fun y other => kept.lists (.semQueue y) (by simp) (by simpa using other)
  have shut : st'.opens x = false := by
    by_contra open'
    exact ((next x mine).mp (by simpa using open')).2 rfl
  have grows := not_open shut
  have going : st ≠ .closed := by
    rintro rfl
    cases opens
  have user : downs (a.system.ctl a.system.curr) = none := by rw [here]; rfl
  have cut : ∀ t, cuts q a.system (.run m₁ m₂) t = true ↔ t ∈ waiting x a.system := by
    intro t
    simp [cuts, which, user, mine]
  have nodup : ∀ y, (waiting y a.system).Nodup := fun y => (placed.wellFormed.ring _).nodup
  have asleep : ∀ y, semClient y = .queue q → ∀ t ∈ waiting y a.system,
      waitsAt q y (a.system.ctl t) = true := fun y mine' t mem => (std.asleep y mine' t mem).2.1
  refine standing_advance std conserved here rfl ?_ rfl grows rfl ?_ ?_ ?_
    (fun ends => absurd ends more) ?_ (fun t now => ⟨x, mine, (cut t).mp now⟩) ?_
    (fun ends => absurd ends more) ?_ ?_
  · rintro p'' same
    cases same
    exact point
  · intro y mine'
    rw [next y mine']
    by_cases same : y = x
    · subst same
      exact ⟨fun on => absurd off on, fun both => absurd rfl both.2⟩
    · have sem : k.sem y = a.system.kernel.sem y := kept.sem y (by simpa using same)
      change (k.sem y).active ≠ 0 ↔ _
      rw [sem, std.sems y mine']
      simp [same]
  · intro y mine' t mem
    have mem' : t ∈ tasks k (.semQueue y) := mem
    by_cases same : y = x
    · subst same
      rw [empty] at mem'
      cases mem'
    · rw [lists y same] at mem'
      refine ⟨mem', (next y mine').mpr ⟨(std.asleep y mine' t mem').1, same⟩, ?_⟩
      by_contra now
      have twice := placed.wellFormed.unique mem' ((cut t).mp (by simpa using now))
      exact same (TaskQueue.semQueue.inj twice)
  · have last : st' ≠ .closed := fun same => more (Or.inr same)
    simpa [last] using std.active.mpr going
  · intro gone
    have before : a.returned = true := by
      simp only [observe, endsDestroy, here, Bool.or_eq_true] at gone
      refine gone.resolve_right fun ended => ?_
      split at ended
      · rename_i same
        cases same
        rw [here] at which
        cases which
      · cases ended
    exact absurd (std.returned before) going
  · intro t tight quiet copies closed
    cases before : st.opens (.sItem q) with
    | false => exact Or.inl rfl
    | true => exact Or.inr (message_is_there (std.items before) (nodup _) (asleep _ rfl) copies)
  · intro open'
    obtain ⟨before, other⟩ := (next _ rfl).mp open'
    refine items_same (std.items before) here rfl (kept.sem _ (by simpa using other))
      (lists _ other) ?_
    simp [itemShare, buffer]
  · intro t u tightT tightU quietT quietU insideT insideU
    by_cases untouched : st = .whole
    · obtain rfl := access untouched
      have awake : ∀ {v}, cuts q a.system (.run m₁ m₂) v = false →
          v ∉ waiting (.sBuffer q) a.system := by
        intro v quiet mem
        rw [(cut v).mpr mem] at quiet
        cases quiet
      exact one_at_access (std.held untouched) (nodup _) (asleep _ mine) insideT insideU
        (awake quietT) (awake quietU)
    · exact std.lone untouched t u tightT tightU insideT insideU

theorem standing_pop (std : Standing q .vaga a) {rest : List (List UInt8)}
    (here : a.system.ctl a.system.curr = .destroy q .drain)
    (drains : DrainsAlone q a (.run m₁ m₂))
    (conserved : Conserved (a.system.setMqueue q fun x => { x with buffer := rest })) :
    Standing q .vaga
      (observe q a (.run m₁ m₂) (a.system.setMqueue q fun x => { x with buffer := rest })) := by
  have ctl : (a.system.setMqueue q fun x => { x with buffer := rest }).ctl =
      Function.update a.system.ctl a.system.curr (.destroy q .drain) := by
    rw [← here, Function.update_eq_self]
    rfl
  have begun : a.begun = true := by
    by_contra no
    exact (std.begun (by simpa using no)).2 _ _ here
  have uncut := cut_early std here rfl
  have quiet : ∀ t, cuts q a.system (.run m₁ m₂) t = false := by
    intro t
    simp [cuts, here, destroys, downs]
  simp only [DrainsAlone, here, forall_const] at drains
  refine standing_entry std (c := false) conserved here ctl ?_ (fun _ _ => rfl)
    (fun _ _ t mem => Or.inl mem) ?_ ?_ ?_ (fun _ _ => Or.inl ⟨_, rfl⟩) ?_ ?_ ⟨?_, ?_, ?_, ?_⟩ ?_ ?_
    ?_ ?_
  · rw [observe_cut std ctl fun t _ => quiet t]
    simp [onQueue]
  · simp [System.setMqueue]
  · rintro (off | off) <;> cases off
  · intro no
    simp [observe, begun] at no
  · simp [observe, endsDestroy, here]
  · simp only [observe, uncut, Bool.false_eq_true, if_false, List.append_nil]
    exact std.answered
  · rintro p same
    cases same
    rfl
  · intro off
    cases off
  · intro _ off
    cases off
  · intro _ _
    rfl
  · intro t _ tight copies
    exact absurd (drains t (atCopy_access copies)) (by simp [tight])
  · intro off
    cases off
  · intro off
    cases off
  · intro _ _ off
    cases off

theorem standing_drained (std : Standing q .vaga a)
    (here : a.system.ctl a.system.curr = .destroy q .drain) (empty : buffer q a.system = [])
    (drains : DrainsAlone q a (.run m₁ m₂))
    (conserved : Conserved (a.system.goto a.system.curr (.destroy q .close))) :
    Standing q .empty
      (observe q a (.run m₁ m₂) (a.system.goto a.system.curr (.destroy q .close))) := by
  have quiet : ∀ t, cuts q a.system (.run m₁ m₂) t = false := by
    intro t
    simp [cuts, here, destroys, downs]
  simp only [DrainsAlone, here, forall_const] at drains
  refine standing_advance std conserved here rfl ?_ rfl (by simp) rfl ?_ ?_ ?_ (fun _ => empty) ?_
    ?_ (fun _ _ _ _ _ => Or.inl rfl) ?_ ?_ ?_
  · rintro p same
    cases same
    rfl
  · exact std.sems
  · intro x mine t mem
    have open' := (std.asleep x mine t mem).1
    cases open'
  · simpa using std.active
  · intro gone
    have before : a.returned = true := by simpa [observe, endsDestroy, here] using gone
    cases std.returned before
  · intro t now
    rw [quiet t] at now
    cases now
  · intro _ t tight
    by_contra inside
    rw [drains t (by simpa using inside)] at tight
    cases tight
  · intro off
    cases off
  · intro t u tightT tightU _ _
    exact std.lone (by simp) t u tightT tightU

theorem standing_close (std : Standing q .empty a)
    (here : a.system.ctl a.system.curr = .destroy q .close)
    (conserved : Conserved ((a.system.setMqueue q fun x => { x with active := 0 }).answer 0)) :
    Standing q .closed (observe q a (.run m₁ m₂)
      ((a.system.setMqueue q fun x => { x with active := 0 }).answer 0)) := by
  have quiet : ∀ t, cuts q a.system (.run m₁ m₂) t = false := by
    intro t
    simp [cuts, here, destroys, downs]
  have same : buffer q ((a.system.setMqueue q fun x => { x with active := 0 }).answer 0) =
      buffer q a.system := by
    simp [buffer, System.setMqueue, System.answer]
  refine standing_advance std conserved here rfl (fun _ same => by cases same) rfl (by simp) same
    ?_ ?_ ?_ (fun _ => same.trans (std.emptied (Or.inl rfl))) (fun _ => rfl) ?_
    (fun _ _ _ _ _ => Or.inl rfl) ?_ ?_ ?_
  · exact std.sems
  · intro x mine t mem
    have open' := (std.asleep x mine t mem).1
    cases open'
  · simp [System.setMqueue, System.answer]
  · intro t now
    rw [quiet t] at now
    cases now
  · intro _ t tight
    exact (std.each t).emptied tight (Or.inl rfl)
  · intro off
    cases off
  · intro t u tightT tightU _ _
    exact std.lone (by simp) t u tightT tightU

theorem standing_destroy (std : Standing q st a)
    (here : a.system.ctl a.system.curr = .destroy q p) (conserved : Conserved s')
    (drains : DrainsAlone q a (.run m₁ m₂)) (run : mqueueDestroyStep a.system q p = .ok s') :
    ∃ st', Standing q st' (observe q a (.run m₁ m₂) s') := by
  have stage := (std.each a.system.curr).destroys p here
  cases p with
  | buffer =>
    subst stage
    refine ⟨.buffer, standing_semDestroy std rfl here (by rw [here]; rfl) rfl ?_ rfl ?_
      (fun _ => rfl) run conserved⟩
    · intro y mine
      rcases queue_sems mine with rfl | rfl | rfl <;> simp [Stage.opens, stageAt]
    · rintro (off | off) <;> cases off
  | item =>
    subst stage
    refine ⟨.item, standing_semDestroy std rfl here (by rw [here]; rfl) rfl ?_ rfl ?_
      (fun off => by cases off) run conserved⟩
    · intro y mine
      rcases queue_sems mine with rfl | rfl | rfl <;> simp [Stage.opens, stageAt]
    · rintro (off | off) <;> cases off
  | vaga =>
    subst stage
    refine ⟨.vaga, standing_semDestroy std rfl here (by rw [here]; rfl) rfl ?_ rfl ?_
      (fun off => by cases off) run conserved⟩
    · intro y mine
      rcases queue_sems mine with rfl | rfl | rfl <;> simp [Stage.opens, stageAt]
    · rintro (off | off) <;> cases off
  | drain =>
    subst stage
    simp only [mqueueDestroyStep] at run
    split at run
    · rename_i empty
      cases run
      exact ⟨.empty, standing_drained std here empty drains conserved⟩
    · cases run
      exact ⟨.vaga, standing_pop std here drains conserved⟩
  | close =>
    subst stage
    cases run
    exact ⟨.closed, standing_close std here conserved⟩

end Destroyer

section Runs
variable {b : Observed N} {l : Label N} {max size : Int}

theorem standing_call (std : Standing q st a) {code : Int}
    (body : a.system.ctl a.system.curr = .body code) {c : Call N} (mine : callClient c = .queue q)
    (once : DestroyedOnce q a (.call c)) (run : call a.system c = .ok s')
    (conserved : Conserved s') : Standing q st (observe q a (.call c) s') := by
  simp only [callClient] at mine
  split at mine
  case h_6 =>
    cases mine
    exact absurd rfl once
  case h_7 msg =>
    cases mine
    cases run
    cases msg with
    | none => exact standing_enter std body conserved (by simp) rfl rfl rfl rfl
    | some m =>
      simp only [mqueueSendCall] at conserved ⊢
      split at conserved
      · rename_i closed
        rw [if_pos closed]
        exact standing_enter std body conserved (by simp) rfl rfl rfl rfl
      · rename_i closed
        rw [if_neg closed]
        exact standing_enter std body conserved (by simp) rfl rfl rfl rfl
  case h_8 msg =>
    cases mine
    cases run
    cases msg with
    | none => exact standing_enter std body conserved (by simp) rfl rfl rfl rfl
    | some m =>
      simp only [mqueueRecvCall] at conserved ⊢
      split at conserved
      · rename_i closed
        rw [if_pos closed]
        exact standing_enter std body conserved (by simp) rfl rfl rfl rfl
      · rename_i closed
        rw [if_neg closed]
        exact standing_enter std body conserved (by simp) rfl rfl rfl rfl
  case h_9 =>
    cases mine
    cases run
    have first : a.begun = false := once rfl
    refine standing_enter std body conserved ?_ rfl rfl rfl rfl
    intro p same
    cases same
    exact ⟨(std.begun first).1, first, by simp [beginsDestroy]⟩
  all_goals cases mine

/-- What a step of a run must respect for the destruction to be safe. -/
def Careful (q : Nat) (a : Observed N) (l : Label N) : Prop :=
  TestsLate q a l ∧ DrainsAlone q a l ∧ CountersFit q a.system l

theorem standing_step (std : Standing q st a) (step' : Observes q a l b)
    (careful : Careful q a l) : ∃ st', Standing q st' b := by
  obtain ⟨⟨run, permitted⟩, seen, once⟩ := step'
  obtain ⟨late, drains, fits⟩ := careful
  have ok := step_kept std.conserved permitted run
  rw [seen]
  by_cases mine : client a.system l = .queue q
  · cases l with
    | tick => cases mine
    | completion => cases mine
    | call c =>
      obtain ⟨code, body, run⟩ := call_runs run
      exact ⟨st, standing_call std body mine once run ok.conserved⟩
    | run m₁ m₂ =>
      rcases queue_runs mine run with ⟨_, _, here, ran⟩ | ⟨_, _, here, ran⟩ | ⟨_, here, ran⟩
      · exact ⟨st, standing_send std here ok.conserved fits late ran⟩
      · exact ⟨st, standing_recv std here ok.conserved fits late ran⟩
      · exact standing_destroy std here ok.conserved drains ran
  · exact ⟨st, standing_framed std ok.conserved (ok.framed _ (by simp) (Ne.symm mine)) mine⟩

theorem standing_safe (std : Standing q st a) : Safe q a := by
  refine ⟨fun t m here => ?_, fun t through => ?_, std.answered, fun gone => ?_⟩
  · have tight := cut_early std here rfl
    have copies : atCopy q (a.system.ctl t) = true := by rw [here]; simp [atCopy]
    cases opens : st.opens (.sItem q) with
    | true =>
      exact message_is_there (std.items opens)
        (std.conserved.placed.wellFormed.ring _).nodup
        (fun u mem => (std.asleep _ rfl u mem).2.1) copies
    | false => exact (std.each t).stocked tight copies opens
  · obtain ⟨grows, at'⟩ := (std.each t).cut through
    refine ⟨fun x mine mem => ?_, fun x mem => ?_⟩
    · have tight := (std.asleep x mine t mem).2.2
      rw [through] at tight
      cases tight
    · have taken : x = .sBuffer q := by
        unfold atCut at at'
        split at at' <;> simp_all [downs]
      subst taken
      by_contra active
      have opens := (std.sems _ rfl).mp active
      cases st <;> first | exact grows rfl | cases opens
  · have last := std.returned gone
    exact std.emptied (Or.inr last)

theorem destruction_is_safe {labels : List (Label N)} (fresh : JustInitialised q max size a)
    (run : Run (fun a l b => Observes q a l b ∧ Careful q a l) a labels b) : Safe q b := by
  obtain ⟨st, std⟩ := run_invariant (fun a => ∃ st, Standing q st a)
    (fun _ _ _ stands both => stands.elim fun _ std => standing_step std both.1 both.2) run
    ⟨.whole, just_standing fresh⟩
  exact standing_safe std

end Runs

section Executions

instance (q : Nat) (a : Observed N) (l : Label N) : Decidable (DestroyedOnce q a l) := by
  unfold DestroyedOnce
  rcases l with _ | _ | c | _ <;> try infer_instance
  rcases c with _ | _ <;> try infer_instance
  case mqueueInit o _ _ | mqueueDestroy o => rcases o with _ | _ <;> infer_instance

instance (q : Nat) (a : Observed N) (l : Label N) : Decidable (TestsLate q a l) := by
  unfold TestsLate
  generalize a.system.ctl a.system.curr = c
  rcases l with _ | _ | _ | _ <;> try infer_instance
  rcases c with _ | _ <;> try infer_instance
  case send point | recv point => rcases point with _ | _ <;> infer_instance

instance (q : Nat) (a : Observed N) (l : Label N) : Decidable (DrainsAlone q a l) := by
  unfold DrainsAlone
  generalize a.system.ctl a.system.curr = c
  rcases l with _ | _ | _ | _ <;> try infer_instance
  rcases c with _ | _ <;> try infer_instance
  case destroy point => rcases point with _ | _ <;> infer_instance

instance (q : Nat) (s : System N) (l : Label N) : Decidable (CountersFit q s l) := by
  unfold CountersFit
  generalize s.ctl s.curr = c
  rcases l with _ | _ | _ | _ <;> try infer_instance
  rcases c with _ | _ <;> try infer_instance
  case send point => rcases point with _ | _ <;> infer_instance

instance (q : Nat) (a : Observed N) (l : Label N) : Decidable (Careful q a l) :=
  inferInstanceAs (Decidable (_ ∧ _))

def observedStep (q : Nat) (a : Observed N) (l : Label N) : Option (Observed N) :=
  match step a.system l with
  | some (.ok s') => some (observe q a l s')
  | _ => none

/-- What a run must respect apart from the conditions. -/
def Lawful (q : Nat) (a : Observed N) (l : Label N) : Prop :=
  Permitted a.system l ∧ DestroyedOnce q a l

instance (q : Nat) (a : Observed N) (l : Label N) : Decidable (Lawful q a l) :=
  inferInstanceAs (Decidable (_ ∧ _))

theorem observed_step {q : Nat} {a b : Observed N} {l : Label N}
    (next : observedStep q a l = some b) (lawful : Lawful q a l) : Observes q a l b := by
  unfold observedStep at next
  split at next
  · rename_i s' found
    cases next
    exact ⟨⟨found, lawful.1⟩, rfl, lawful.2⟩
  · cases next

def observed (q : Nat) (max size : Int) : Observed N :=
  ⟨initialised q max size, false, false, fun _ => false, []⟩

theorem observed_fresh {q : Nat} {max size : Int} (room : 1 ≤ max) (isInt : max ≤ intMax) :
    JustInitialised q max size (observed q max size : Observed N) := by
  have fresh : Fresh q max size (initialised q max size : System N) :=
    initialised_fresh room isInt
  exact ⟨fresh.conserved, fresh.mqueue, fresh.sBuffer, fresh.sItem, fresh.sVaga, fresh.noWaiters,
    fresh.outside, rfl, rfl, fun _ => rfl, rfl⟩

/-- A task waits for a message; main, which gets the processor back, destroys the queue. -/
def blockedReceiver : List (Label (Fin 1)) :=
  [Label.call (.taskInit (.user 0) true), .call (.taskSwitch (some (.user 0))),
    .call (.mqueueRecv (some 0) (some 0))] ++ List.replicate 5 (Label.run true true) ++
  [Label.call (.mqueueDestroy (some 0))]

def destroyedAtOnce : List (Label (Fin 1)) :=
  blockedReceiver ++ List.replicate 5 (Label.run true true) ++ [Label.call .taskYield] ++
  List.replicate 5 (Label.run true true) ++ [Label.call .taskYield] ++
  List.replicate 7 (Label.run true true)

theorem blocked_receiver_is_refused : ∃ b : Observed (Fin 1),
    Run (fun a l b => Observes 0 a l b ∧ Careful 0 a l) (observed 0 1 1) destroyedAtOnce b ∧
      b.answered = [-1] ∧ b.returned = true ∧ Safe 0 b := by
  obtain ⟨b, found, ends⟩ := exec_reaches
    (guarded (fun a l _ => Lawful 0 a l ∧ Careful 0 a l) (observedStep 0)) (observed 0 1 1)
    destroyedAtOnce (fun b => b.answered = [-1] ∧ b.returned = true) (by decide +kernel)
  have run : Run (fun a l b => Observes 0 a l b ∧ Careful 0 a l) (observed 0 1 1)
      destroyedAtOnce b := by
    refine run_mono ?_ (guarded_run found)
    intro a l b ⟨next, lawful, careful⟩
    exact ⟨observed_step next lawful, careful⟩
  exact ⟨b, run, ends.1, ends.2,
    destruction_is_safe (observed_fresh (by decide) (by decide)) run⟩

/-- The timer takes the processor from main twice after it has destroyed s_item. -/
def destroyedInSteps : List (Label (Fin 1)) :=
  blockedReceiver ++ List.replicate 2 (Label.run true true) ++ List.replicate 10 Label.tick ++
  List.replicate 5 (Label.run true true) ++ List.replicate 10 Label.tick ++
  List.replicate 7 (Label.run true true)

/-- The receiver finds active still set and goes on to the empty buffer. -/
theorem blocked_receiver_reads_nothing : ∃ b : Observed (Fin 1),
    JustInitialised 0 1 1 (observed 0 1 1 : Observed (Fin 1)) ∧
      Run (Observes 0) (observed 0 1 1) destroyedInSteps b ∧
      b.system.ctl (.user 0) = .recv 0 0 .take ∧ buffer 0 b.system = [] ∧ ¬ Safe 0 b := by
  obtain ⟨b, found, there, empty⟩ := exec_reaches
    (guarded (fun a l _ => Lawful 0 a l) (observedStep 0)) (observed 0 1 1)
    destroyedInSteps (fun b => b.system.ctl (.user 0) = .recv 0 0 .take ∧ buffer 0 b.system = [])
    (by decide +kernel)
  refine ⟨b, observed_fresh (by decide) (by decide), ?_, there, empty,
    fun safe => safe.neverEmpty _ _ there empty⟩
  refine run_mono ?_ (guarded_run found)
  intro a l b ⟨next, lawful⟩
  exact observed_step next lawful

end Executions

end DestructionSafety
