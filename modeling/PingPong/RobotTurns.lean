import PingPong.TransitionRuns

/-! The three threads of coordination/robots.c, which hand one token around. A semaphore is a
number of tokens; a thread that sleeps may go on at any time. -/
namespace RobotTurns
open TransitionRuns

inductive Robot where
  | bart
  | lisa
  | maggie
  deriving DecidableEq, Repr

/-- Where bart or maggie stands in the body of its loop. -/
inductive TurnPoint where
  | wait
  | print
  | post
  | sleep
  deriving DecidableEq, Repr

/-- The body of lisa's loop waits, prints and posts twice. -/
inductive LisaPoint where
  | wait
  | print
  | post
  | waitAgain
  | printAgain
  | postAgain
  | sleep
  deriving DecidableEq, Repr

structure Robots where
  bartS : Nat
  lisaS : Nat
  maggieS : Nat
  bart : TurnPoint
  lisa : LisaPoint
  maggie : TurnPoint
  output : List Robot
  deriving DecidableEq

def start : Robots :=
  { bartS := 1, lisaS := 0, maggieS := 0, bart := .wait, lisa := .wait, maggie := .wait,
    output := [] }

def bart (s : Robots) : Option Robots :=
  match s.bart with
  | .wait => if 0 < s.bartS then some { s with bartS := s.bartS - 1, bart := .print } else none
  | .print => some { s with output := s.output ++ [.bart], bart := .post }
  | .post => some { s with lisaS := s.lisaS + 1, bart := .sleep }
  | .sleep => some { s with bart := .wait }

def lisa (s : Robots) : Option Robots :=
  match s.lisa with
  | .wait => if 0 < s.lisaS then some { s with lisaS := s.lisaS - 1, lisa := .print } else none
  | .print => some { s with output := s.output ++ [.lisa], lisa := .post }
  | .post => some { s with maggieS := s.maggieS + 1, lisa := .waitAgain }
  | .waitAgain =>
    if 0 < s.lisaS then some { s with lisaS := s.lisaS - 1, lisa := .printAgain } else none
  | .printAgain => some { s with output := s.output ++ [.lisa], lisa := .postAgain }
  | .postAgain => some { s with bartS := s.bartS + 1, lisa := .sleep }
  | .sleep => some { s with lisa := .wait }

def maggie (s : Robots) : Option Robots :=
  match s.maggie with
  | .wait =>
    if 0 < s.maggieS then some { s with maggieS := s.maggieS - 1, maggie := .print } else none
  | .print => some { s with output := s.output ++ [.maggie], maggie := .post }
  | .post => some { s with lisaS := s.lisaS + 1, maggie := .sleep }
  | .sleep => some { s with maggie := .wait }

def step (s : Robots) (r : Robot) : Option Robots :=
  match r with
  | .bart => bart s
  | .lisa => lisa s
  | .maggie => maggie s

/-- Whose line is line i of the output. -/
def speaker (i : Nat) : Robot :=
  match i % 4 with
  | 0 => .bart
  | 2 => .maggie
  | _ => .lisa

def lines (n : Nat) : List Robot := (List.range n).map speaker

section Token

inductive Turn where
  | bart
  | lisa
  | maggie
  | lisaAgain
  deriving DecidableEq, Repr

def Turn.index : Turn → Nat
  | .bart => 0
  | .lisa => 1
  | .maggie => 2
  | .lisaAgain => 3

def Turn.next : Turn → Turn
  | .bart => .lisa
  | .lisa => .maggie
  | .maggie => .lisaAgain
  | .lisaAgain => .bart

def Turn.robot : Turn → Robot
  | .bart => .bart
  | .lisa => .lisa
  | .maggie => .maggie
  | .lisaAgain => .lisa

/-- The token is in the semaphore of the turn's robot, or with the robot itself. -/
inductive Place where
  | semaphore
  | printing
  | posting
  deriving DecidableEq, Repr

structure Stage where
  turn : Turn
  place : Place
  bartSleeps : Bool
  lisaSleeps : Bool
  maggieSleeps : Bool
  deriving DecidableEq, Repr

def rest (sleeps : Bool) : TurnPoint := if sleeps then .sleep else .wait

def lisaRest (sleeps : Bool) : LisaPoint := if sleeps then .sleep else .wait

/-- The only state that fits a stage, when output has been printed. -/
def Stage.robots (g : Stage) (output : List Robot) : Robots :=
  let b := rest g.bartSleeps
  let l := lisaRest g.lisaSleeps
  let m := rest g.maggieSleeps
  match g.turn, g.place with
  | .bart, .semaphore => ⟨1, 0, 0, b, l, m, output⟩
  | .bart, .printing => ⟨0, 0, 0, .print, l, m, output⟩
  | .bart, .posting => ⟨0, 0, 0, .post, l, m, output⟩
  | .lisa, .semaphore => ⟨0, 1, 0, b, l, m, output⟩
  | .lisa, .printing => ⟨0, 0, 0, b, .print, m, output⟩
  | .lisa, .posting => ⟨0, 0, 0, b, .post, m, output⟩
  | .maggie, .semaphore => ⟨0, 0, 1, b, .waitAgain, m, output⟩
  | .maggie, .printing => ⟨0, 0, 0, b, .waitAgain, .print, output⟩
  | .maggie, .posting => ⟨0, 0, 0, b, .waitAgain, .post, output⟩
  | .lisaAgain, .semaphore => ⟨0, 1, 0, b, .waitAgain, m, output⟩
  | .lisaAgain, .printing => ⟨0, 0, 0, b, .printAgain, m, output⟩
  | .lisaAgain, .posting => ⟨0, 0, 0, b, .postAgain, m, output⟩

/-- A robot that is busy with its line does not sleep; lisa is busy for two turns in a row. -/
def Stage.Awake (g : Stage) : Prop :=
  match g.turn with
  | .bart => g.place ≠ .semaphore → g.bartSleeps = false
  | .lisa => g.place ≠ .semaphore → g.lisaSleeps = false
  | .maggie => g.lisaSleeps = false ∧ (g.place ≠ .semaphore → g.maggieSleeps = false)
  | .lisaAgain => g.lisaSleeps = false

/-- How many more steps there can be before the next line. -/
def Stage.slack (g : Stage) : Nat :=
  g.bartSleeps.toNat + g.lisaSleeps.toNat + g.maggieSleeps.toNat +
    match g.place, g.turn with
    | .semaphore, _ => 1
    | .printing, _ => 0
    | .posting, .lisa => 2
    | .posting, _ => 3

/-- The token goes on, or a robot wakes up. -/
inductive Moves (g : Stage) (output : List Robot) : Stage → List Robot → Prop where
  | wakeBart (asleep : g.bartSleeps = true) :
      Moves g output { g with bartSleeps := false } output
  | wakeLisa (asleep : g.lisaSleeps = true) :
      Moves g output { g with lisaSleeps := false } output
  | wakeMaggie (asleep : g.maggieSleeps = true) :
      Moves g output { g with maggieSleeps := false } output
  | take (here : g.place = .semaphore) (awake : { g with place := .printing : Stage }.Awake) :
      Moves g output { g with place := .printing } output
  | print (here : g.place = .printing) :
      Moves g output { g with place := .posting } (output ++ [g.turn.robot])
  | post (here : g.place = .posting) :
      Moves g output
        { g with
          turn := g.turn.next, place := .semaphore
          bartSleeps := g.bartSleeps || g.turn == .bart
          lisaSleeps := g.lisaSleeps || g.turn == .lisaAgain
          maggieSleeps := g.maggieSleeps || g.turn == .maggie } output

variable {g g' : Stage} {output output' : List Robot} {s s' : Robots}

theorem bart_moves (awake : g.Awake) (go : bart (g.robots output) = some s') :
    ∃ g' output', Moves g output g' output' ∧ s' = g'.robots output' := by
  obtain ⟨turn, place, b, l, m⟩ := g
  cases turn with
  | bart =>
    cases place with
    | semaphore =>
      cases b with
      | true => exact ⟨_, _, .wakeBart rfl, (Option.some.inj go).symm⟩
      | false => exact ⟨_, _, .take rfl fun _ => rfl, (Option.some.inj go).symm⟩
    | printing => exact ⟨_, _, .print rfl, (Option.some.inj go).symm⟩
    | posting =>
      cases b <;> cases l <;> cases m <;> exact ⟨_, _, .post rfl, (Option.some.inj go).symm⟩
  | _ =>
    -- bart_s holds nothing for it to take
    cases b with
    | true => cases place <;> exact ⟨_, _, .wakeBart rfl, (Option.some.inj go).symm⟩
    | false => cases place <;> cases go

theorem lisa_moves (awake : g.Awake) (go : lisa (g.robots output) = some s') :
    ∃ g' output', Moves g output g' output' ∧ s' = g'.robots output' := by
  obtain ⟨turn, place, b, l, m⟩ := g
  cases turn with
  | bart =>
    cases l with
    | true => cases place <;> exact ⟨_, _, .wakeLisa rfl, (Option.some.inj go).symm⟩
    | false => cases place <;> cases go
  | lisa =>
    cases place with
    | semaphore =>
      cases l with
      | true => exact ⟨_, _, .wakeLisa rfl, (Option.some.inj go).symm⟩
      | false => exact ⟨_, _, .take rfl fun _ => rfl, (Option.some.inj go).symm⟩
    | printing => exact ⟨_, _, .print rfl, (Option.some.inj go).symm⟩
    | posting =>
      cases b <;> cases l <;> cases m <;> exact ⟨_, _, .post rfl, (Option.some.inj go).symm⟩
  | maggie => cases place <;> cases go
  | lisaAgain =>
    cases place with
    | semaphore => exact ⟨_, _, .take rfl awake, (Option.some.inj go).symm⟩
    | printing => exact ⟨_, _, .print rfl, (Option.some.inj go).symm⟩
    | posting =>
      cases b <;> cases l <;> cases m <;> exact ⟨_, _, .post rfl, (Option.some.inj go).symm⟩

theorem maggie_moves (awake : g.Awake) (go : maggie (g.robots output) = some s') :
    ∃ g' output', Moves g output g' output' ∧ s' = g'.robots output' := by
  obtain ⟨turn, place, b, l, m⟩ := g
  cases turn with
  | maggie =>
    cases place with
    | semaphore =>
      cases m with
      | true => exact ⟨_, _, .wakeMaggie rfl, (Option.some.inj go).symm⟩
      | false => exact ⟨_, _, .take rfl ⟨awake.1, fun _ => rfl⟩, (Option.some.inj go).symm⟩
    | printing => exact ⟨_, _, .print rfl, (Option.some.inj go).symm⟩
    | posting =>
      cases b <;> cases l <;> cases m <;> exact ⟨_, _, .post rfl, (Option.some.inj go).symm⟩
  | _ =>
    cases m with
    | true => cases place <;> exact ⟨_, _, .wakeMaggie rfl, (Option.some.inj go).symm⟩
    | false => cases place <;> cases go

theorem step_moves (awake : g.Awake) {r : Robot} (go : step (g.robots output) r = some s') :
    ∃ g' output', Moves g output g' output' ∧ s' = g'.robots output' := by
  cases r with
  | bart => exact bart_moves awake go
  | lisa => exact lisa_moves awake go
  | maggie => exact maggie_moves awake go

theorem moves_awake (awake : g.Awake) (moves : Moves g output g' output') : g'.Awake := by
  obtain ⟨turn, place, b, l, m⟩ := g
  cases moves with
  | take here after => exact after
  | print here => cases here; cases turn <;> simp_all [Stage.Awake]
  | post here => cases here; cases turn <;> simp_all [Stage.Awake, Turn.next]
  | _ => cases turn <;> simp_all [Stage.Awake]

/-- Every step but a print uses up one of those left before the next line. -/
theorem moves_slack (awake : g.Awake) (moves : Moves g output g' output') :
    (output' = output ∧ g'.slack + 1 = g.slack) ∨
    (g.place = .printing ∧ g'.place = .posting ∧ g'.turn = g.turn ∧
      output' = output ++ [g.turn.robot] ∧ g'.slack ≤ g.slack + 3) := by
  obtain ⟨turn, place, b, l, m⟩ := g
  cases moves with
  | wakeBart asleep => cases asleep; exact Or.inl ⟨rfl, by simp [Stage.slack]; omega⟩
  | wakeLisa asleep => cases asleep; exact Or.inl ⟨rfl, by simp [Stage.slack]; omega⟩
  | wakeMaggie asleep => cases asleep; exact Or.inl ⟨rfl, by simp [Stage.slack]; omega⟩
  | take here after => cases here; exact Or.inl ⟨rfl, by cases turn <;> rfl⟩
  | print here =>
    cases here
    exact Or.inr ⟨rfl, rfl, rfl, rfl, by cases turn <;> simp [Stage.slack]⟩
  | post here =>
    cases here
    refine Or.inl ⟨rfl, ?_⟩
    cases turn <;> cases b <;> cases l <;> cases m <;> simp [Stage.Awake] at awake <;> rfl

theorem holder_goes_on (g : Stage) (output : List Robot) :
    ∃ s', step (g.robots output) g.turn.robot = some s' := by
  obtain ⟨turn, place, b, l, m⟩ := g
  cases turn <;> cases place <;> cases b <;> cases l <;> cases m <;> exact ⟨_, rfl⟩

theorem one_token (g : Stage) (output : List Robot) :
    (g.robots output).bartS + (g.robots output).lisaS + (g.robots output).maggieS ≤ 1 := by
  obtain ⟨turn, place, b, l, m⟩ := g
  cases turn <;> cases place <;> simp [Stage.robots]

end Token

section Order

/-- The lines are printed in order, the next one by the robot of this stage, or by that of the next
    turn when the token is being posted. -/
structure Ordered (g : Stage) (output : List Robot) : Prop where
  lines : output = lines output.length
  next : output.length % 4 = if g.place = .posting then g.turn.next.index else g.turn.index

theorem speaker_turn {n : Nat} {turn : Turn} (at' : n % 4 = turn.index) :
    speaker n = turn.robot := by
  unfold speaker
  rw [at']
  cases turn <;> rfl

theorem next_index {n : Nat} {turn : Turn} (at' : n % 4 = turn.index) :
    (n + 1) % 4 = turn.next.index := by
  rw [Nat.add_mod, at']
  cases turn <;> rfl

variable {g g' : Stage} {output output' : List Robot}

theorem ordered_moves (ordered : Ordered g output) (moves : Moves g output g' output') :
    Ordered g' output' := by
  obtain ⟨inOrder, next⟩ := ordered
  cases moves with
  | wakeBart => exact ⟨inOrder, next⟩
  | wakeLisa => exact ⟨inOrder, next⟩
  | wakeMaggie => exact ⟨inOrder, next⟩
  | take here => exact ⟨inOrder, by simpa [here] using next⟩
  | post here => exact ⟨inOrder, by simpa [here] using next⟩
  | print here =>
    have turn : output.length % 4 = g.turn.index := by simpa [here] using next
    refine ⟨?_, ?_⟩
    · rw [List.length_append, List.length_singleton, lines, List.range_succ, List.map_append,
        List.map_singleton, speaker_turn turn, ← lines, ← inOrder]
    · simpa using next_index turn

end Order

/-- The threads are at a stage of the token, and few steps have passed for the lines printed. -/
structure Passing (threads : List Robot) (s : Robots) (g : Stage) : Prop where
  state : s = g.robots s.output
  awake : g.Awake
  ordered : Ordered g s.output
  steps : threads.length + g.slack ≤ 4 * s.output.length + 1

theorem robots_output (g : Stage) (output : List Robot) : (g.robots output).output = output := by
  obtain ⟨turn, place, b, l, m⟩ := g
  cases turn <;> cases place <;> rfl

theorem start_passing : Passing [] start ⟨.bart, .semaphore, false, false, false⟩ :=
  ⟨rfl, fun other => absurd rfl other, ⟨rfl, rfl⟩, by decide⟩

theorem passing_step {threads : List Robot} {s s' : Robots} {g : Stage} {r : Robot}
    (passing : Passing threads s g) (go : step s r = some s') :
    ∃ g', Passing (threads ++ [r]) s' g' := by
  have steps := passing.steps
  rw [passing.state] at go
  obtain ⟨g', output', moves, rfl⟩ := step_moves passing.awake go
  have same := robots_output g' output'
  refine ⟨g', by rw [same], moves_awake passing.awake moves, ?_, ?_⟩
  · rw [same]
    exact ordered_moves passing.ordered moves
  · rw [same, List.length_append, List.length_singleton]
    rcases moves_slack passing.awake moves with ⟨rfl, less⟩ | ⟨-, -, -, rfl, more⟩
    · omega
    · rw [List.length_append, List.length_singleton]
      omega

/-- Whatever the order of their steps, the robots print Bart, Lisa, Maggie, Lisa over and over; one
    token is in the semaphores at most, some thread can always go on, and there are never more than
    four steps for each line and one before the first. -/
theorem robots_take_turns {threads : List Robot} {s : Robots}
    (run : Run (fun a r b => step a r = some b) start threads s) :
    s.output = lines s.output.length ∧ s.bartS + s.lisaS + s.maggieS ≤ 1 ∧
      (∃ r s', step s r = some s') ∧ threads.length ≤ 4 * s.output.length + 1 := by
  obtain ⟨g, passing⟩ : ∃ g, Passing threads s g :=
    run_history (fun threads s => ∃ g, Passing threads s g)
      (fun _ _ _ _ _ ⟨_, passing⟩ go => passing_step passing go) run ⟨_, start_passing⟩
  have steps := passing.steps
  obtain ⟨s', more⟩ := holder_goes_on g s.output
  have one := one_token g s.output
  rw [← passing.state] at more one
  exact ⟨passing.ordered.lines, one, ⟨_, s', more⟩, by omega⟩

/-- One round, and bart's next line. -/
def round : List Robot :=
  [.bart, .bart, .bart, .lisa, .lisa, .lisa, .maggie, .maggie, .maggie, .lisa, .lisa, .lisa,
   .bart, .bart, .bart]

theorem one_round : ∃ s, Run (fun a r b => step a r = some b) start round s ∧
    s.output = [.bart, .lisa, .maggie, .lisa, .bart] ∧ s.output = lines s.output.length := by
  obtain ⟨s, found, printed⟩ := exec_reaches step start round
    (fun s => s.output = [.bart, .lisa, .maggie, .lisa, .bart]) (by decide)
  have run := exec_run found
  exact ⟨s, run, printed, (robots_take_turns run).1⟩

end RobotTurns
