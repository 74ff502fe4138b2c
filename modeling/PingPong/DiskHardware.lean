import Mathlib.Data.UInt
import PingPong.SystemModel
import PingPong.ByteFiles

/-!
core/disk/disk.c as it works on the bytes of its file, with the timer it arms. The device of the
system has blocks in place of the bytes and no timer; here the two are compared command by
command.
-/
namespace DiskHardware
open MachineModel SystemModel ByteFiles

def diskCmdInit : Int := 0
def diskCmdRead : Int := 1
def diskCmdWrite : Int := 2
def diskCmdStatus : Int := 3
def diskCmdDisksize : Int := 4
def diskCmdBlocksize : Int := 5
def diskCmdDelaymin : Int := 6
def diskCmdDelaymax : Int := 7

def diskDelayMin : Int := 30
def diskDelayMax : Int := 300

def statusCode : DiskStatus → Int
  | .unknown => 0
  | .idle => 1
  | .read => 2
  | .write => 3

structure Timespec where
  tvSec : Int
  tvNsec : Int
  deriving DecidableEq, Repr

/-- The disk_t of core/disk/disk.c. The timer is none while it is not armed. -/
structure Disk where
  status : DiskStatus
  file : File UInt8
  numblocks : Int
  blocksize : Int
  buffer : Nat
  prevBlock : Int
  nextBlock : Int
  delayMin : Int
  delayMax : Int
  timer : Option Timespec

/-- The time_ms of disk_settimer; rand is what rand() returns. -/
def timeMs (d : Disk) (rand : Nat) : Int :=
  let spread := toInt (d.delayMax - d.delayMin)
  let distance := toInt (toInt (d.nextBlock - d.prevBlock)).natAbs
  toInt (toInt ((toInt (distance * spread)).tdiv d.numblocks + d.delayMin) +
    ((rand : Int).tmod spread).tdiv 10)

/-- A division by zero is a signal that ends the process; timer_settime refuses nanoseconds that
    are a second or more, and an it_value of zero disarms the timer. -/
def diskSettimer (d : Disk) (rand : Nat) : Except Halt Disk :=
  if d.numblocks = 0 ∨ toInt (d.delayMax - d.delayMin) = 0 then .error .fault
  else
    let time := timeMs d rand
    let delay := Timespec.mk (time.tdiv 1000) (toInt (time * 1000000))
    if delay.tvSec < 0 ∨ delay.tvNsec < 0 ∨ 1000000000 ≤ delay.tvNsec then .error (.exit 1)
    else .ok { d with timer := if delay = ⟨0, 0⟩ then none else some delay }

/-- The handler of SIGIO, up to raise(SIGUSR1). -/
def diskSighandle (d : Disk) (ram : Nat → UInt8) : Except Halt (Disk × (Nat → UInt8)) :=
  let position := toInt (d.nextBlock * d.blocksize)
  let size := sizeOfInt d.blocksize
  match d.status with
  | .read =>
    let (data, file) := (d.file.seekSet position).read size
    .ok ({ d with file := file, prevBlock := d.nextBlock, status := .idle },
      storeBytes ram d.buffer data)
  | .write =>
    let file := (d.file.seekSet position).write (loadBytes ram d.buffer size)
    .ok ({ d with file := file, prevBlock := d.nextBlock, status := .idle }, ram)
  | .unknown | .idle => .error (.exit 1)

/-- The host flag tells whether the file could be opened and the timer created. -/
def diskInit (d : Disk) (host : Bool) : Except Halt (Disk × Int) :=
  if d.status ≠ .unknown then .ok (d, -1)
  else if host = false then .error (.exit 1)
  else
    let size := d.file.bytes.length
    .ok ({ d with status := .idle, nextBlock := 0, prevBlock := 0, blocksize := diskBlockSize
                  file := { d.file with offset := size }
                  numblocks := toInt ((size : Int).tdiv diskBlockSize)
                  delayMin := diskDelayMin, delayMax := diskDelayMax }, 0)

def diskCmd (d : Disk) (cmd block : Int) (buffer : Option Nat) (host : Bool) (rand : Nat) :
    Except Halt (Disk × Int) :=
  if cmd = diskCmdInit then diskInit d host
  else if cmd = diskCmdStatus then .ok (d, statusCode d.status)
  else if cmd = diskCmdDisksize then
    .ok (d, if d.status = .unknown then -1 else d.numblocks)
  else if cmd = diskCmdBlocksize then
    .ok (d, if d.status = .unknown then -1 else d.blocksize)
  else if cmd = diskCmdDelaymin then
    .ok (d, if d.status = .unknown then -1 else d.delayMin)
  else if cmd = diskCmdDelaymax then
    .ok (d, if d.status = .unknown then -1 else d.delayMax)
  else if cmd = diskCmdRead ∨ cmd = diskCmdWrite then
    if d.status ≠ .idle then .ok (d, -1)
    else match buffer with
      | none => .ok (d, -1)
      | some a =>
        if block < 0 ∨ d.numblocks ≤ block then .ok (d, -1)
        else
          let status := if cmd = diskCmdRead then DiskStatus.read else DiskStatus.write
          (diskSettimer { d with buffer := a, nextBlock := block, status := status } rand).map
            fun d => (d, 0)
  else .ok (d, -1)

section Comparison

def opCmd : Operation → Int
  | .read => diskCmdRead
  | .write => diskCmdWrite

def opStatus : Operation → DiskStatus
  | .read => .read
  | .write => .write

def asBlock (data : List UInt8) : Block := fun i => data.getD i 0

def blocks (d : Disk) : Nat := d.file.bytes.length / 64

/-- The same disk, seen as blocks. -/
structure Matches (d : Disk) (v : Device) : Prop where
  status : v.status = d.status
  buffer : v.buffer = d.buffer
  prevBlock : v.prevBlock = d.prevBlock
  nextBlock : v.nextBlock = d.nextBlock
  numblocks : v.numblocks = d.numblocks
  blocksize : v.blocksize = d.blocksize
  fileBlocks : v.fileBlocks = blocks d
  file : ∀ i, i < blocks d → v.file i = asBlock (block 64 d.file.bytes i)

def Timely (t : Timespec) : Prop := t.tvSec = 0 ∧ 30000000 ≤ t.tvNsec ∧ t.tvNsec ≤ 325000000

structure Configured (d : Disk) : Prop where
  numblocks : d.numblocks = blocks d
  blocksize : d.blocksize = 64
  delayMin : d.delayMin = 30
  delayMax : d.delayMax = 300
  prevBlock : 0 ≤ d.prevBlock ∧ (d.prevBlock < d.numblocks ∨ d.prevBlock = 0)

/-- The products of disk_settimer fit in an int, and the timer is armed while the disk works. -/
structure Working (d : Disk) : Prop where
  small : blocks d ≤ 7953644
  configured : d.status ≠ .unknown → Configured d
  busy : d.status = .read ∨ d.status = .write →
    0 ≤ d.nextBlock ∧ d.nextBlock < d.numblocks ∧ ∃ t, d.timer = some t ∧ Timely t
  rest : d.status = .unknown ∨ d.status = .idle → d.timer = none

end Comparison

section Bytes
variable {ram : Nat → UInt8} {a : Nat} {data : List UInt8}

theorem load_length (ram : Nat → UInt8) (a size : Nat) : (loadBytes ram a size).length = size := by
  simp [loadBytes]

theorem load_asBlock (ram : Nat → UInt8) (a : Nat) :
    asBlock (loadBytes ram a 64) = loadBlock ram a := by
  funext i
  have inside : (i : Nat) < (loadBytes ram a 64).length := by
    rw [load_length]
    exact i.isLt
  simp only [asBlock, List.getD_eq_getElem?_getD, List.getElem?_eq_getElem inside,
    Option.getD_some]
  simp [loadBytes, loadBlock]

theorem store_asBlock (ram : Nat → UInt8) (a : Nat) (whole : data.length = 64) :
    storeBytes ram a data = storeBlock ram a (asBlock data) := by
  funext x
  simp only [storeBytes, storeBlock]
  by_cases low : x < a
  · rw [if_pos low, dif_neg (by omega)]
  · rw [if_neg low]
    by_cases high : x - a < 64
    · rw [dif_pos ⟨by omega, high⟩]
      simp only [asBlock, List.getD_eq_getElem?_getD,
        List.getElem?_eq_getElem (show x - a < data.length by omega), Option.getD_some]
    · rw [dif_neg (by omega), List.getD_eq_getElem?_getD, List.getElem?_eq_none (by omega),
        Option.getD_none]

end Bytes

section Commands
variable {d : Disk} {v : Device}

/-- The distance is less than the number of blocks, so its share of 270 ms is at most 269. -/
theorem timeMs_range (c : Configured d) (small : blocks d ≤ 7953644)
    (next : 0 ≤ d.nextBlock ∧ d.nextBlock < d.numblocks) (rand : Nat) :
    30 ≤ timeMs d rand ∧ timeMs d rand ≤ 325 := by
  have count := c.numblocks
  obtain ⟨prevLow, prevHigh⟩ := c.prevBlock
  have spread : toInt (300 - 30) = 270 := by decide
  obtain ⟨far, near⟩ : ((d.nextBlock - d.prevBlock).natAbs : Int) ≤ d.numblocks - 1 ∧
      0 ≤ ((d.nextBlock - d.prevBlock).natAbs : Int) := by omega
  have step : toInt (d.nextBlock - d.prevBlock) = d.nextBlock - d.prevBlock :=
    toInt_eq_self (by simp only [intMin]; omega) (by simp only [intMax]; omega)
  simp only [timeMs, c.delayMin, c.delayMax, spread, step]
  generalize ((d.nextBlock - d.prevBlock).natAbs : Int) = x at far near ⊢
  have distance : toInt x = x :=
    toInt_eq_self (by simp only [intMin]; omega) (by simp only [intMax]; omega)
  have product : toInt (x * 270) = x * 270 :=
    toInt_eq_self (by simp only [intMin]; omega) (by simp only [intMax]; omega)
  have share : 0 ≤ (x * 270).tdiv d.numblocks ∧ (x * 270).tdiv d.numblocks ≤ 269 := by
    rw [Int.tdiv_eq_ediv_of_nonneg (by omega)]
    have top : x * 270 / d.numblocks < 270 := Int.ediv_lt_of_lt_mul (by omega) (by omega)
    exact ⟨Int.ediv_nonneg (by omega) (by omega), by omega⟩
  have random : 0 ≤ ((rand : Int).tmod 270).tdiv 10 ∧ ((rand : Int).tmod 270).tdiv 10 ≤ 26 := by
    rw [Int.tmod_eq_emod_of_nonneg (by omega), Int.tdiv_eq_ediv_of_nonneg (by omega)]
    omega
  have sum : toInt ((x * 270).tdiv d.numblocks + 30) = (x * 270).tdiv d.numblocks + 30 :=
    toInt_eq_self (by simp only [intMin]; omega) (by simp only [intMax]; omega)
  simp only [distance, product, sum]
  rw [toInt_eq_self (by simp only [intMin]; omega) (by simp only [intMax]; omega)]
  omega

theorem settimer_spec (c : Configured d) (small : blocks d ≤ 7953644)
    (next : 0 ≤ d.nextBlock ∧ d.nextBlock < d.numblocks) (rand : Nat) :
    ∃ t, diskSettimer d rand = .ok { d with timer := some t } ∧ Timely t := by
  obtain ⟨low, high⟩ := timeMs_range c small next rand
  have spread : toInt (300 - 30) = 270 := by decide
  have positive : ¬ (d.numblocks = 0 ∨ toInt (d.delayMax - d.delayMin) = 0) := by
    rw [c.delayMin, c.delayMax, spread]
    omega
  have seconds : (timeMs d rand).tdiv 1000 = 0 := by
    rw [Int.tdiv_eq_ediv_of_nonneg (by omega)]
    omega
  have nanoseconds : toInt (timeMs d rand * 1000000) = timeMs d rand * 1000000 :=
    toInt_eq_self (by simp only [intMin]; omega) (by simp only [intMax]; omega)
  refine ⟨⟨0, timeMs d rand * 1000000⟩, ?_, rfl, ?_, ?_⟩
  · simp only [diskSettimer, positive, ↓reduceIte, seconds, nanoseconds]
    rw [if_neg (by omega), if_neg (by simp only [Timespec.mk.injEq]; omega)]
  · dsimp only
    omega
  · dsimp only
    omega

theorem cmd_spec (w : Working d) (m : Matches d v) (op : Operation) (block : Int)
    (buffer : Option Nat) (host : Bool) (rand : Nat) :
    ∃ d', diskCmd d (opCmd op) block buffer host rand =
        .ok (d', (SystemModel.diskCmd v op block buffer).2) ∧
      Working d' ∧ Matches d' (SystemModel.diskCmd v op block buffer).1 ∧
      d'.file.bytes = d.file.bytes := by
  have unfolded : diskCmd d (opCmd op) block buffer host rand =
      if d.status ≠ .idle then .ok (d, -1)
      else match buffer with
        | none => .ok (d, -1)
        | some a =>
          if block < 0 ∨ d.numblocks ≤ block then .ok (d, -1)
          else
            (diskSettimer { d with buffer := a, nextBlock := block, status := opStatus op } rand).map
              fun d => (d, 0) := by
    cases op <;> rfl
  rw [unfolded]
  simp only [SystemModel.diskCmd, m.status, m.numblocks]
  by_cases idle : d.status = .idle
  · cases buffer with
    | none =>
      simp only [idle, ne_eq, not_true_eq_false, ↓reduceIte]
      exact ⟨d, rfl, w, m, rfl⟩
    | some a =>
      by_cases refused : block < 0 ∨ d.numblocks ≤ block
      · simp only [idle, ne_eq, not_true_eq_false, ↓reduceIte, refused]
        exact ⟨d, rfl, w, m, rfl⟩
      · have c := w.configured (by rw [idle]; simp)
        have accepted : ∀ timer, Configured { d with
            buffer := a, nextBlock := block, status := opStatus op, timer := timer } :=
          fun _ => ⟨c.numblocks, c.blocksize, c.delayMin, c.delayMax, c.prevBlock⟩
        have inside : 0 ≤ block ∧ block < d.numblocks := by omega
        obtain ⟨t, armed, timely⟩ := settimer_spec (accepted d.timer) w.small inside rand
        simp only [idle, ne_eq, not_true_eq_false, ↓reduceIte, refused, armed, Except.map]
        refine ⟨_, rfl, ⟨w.small, fun _ => accepted _, ?_, ?_⟩, ?_, rfl⟩
        · intro _
          exact ⟨inside.1, inside.2, t, rfl, timely⟩
        · intro free
          cases op with
          | read | write =>
            rcases free with free | free
            · cases free
            · cases free
        · cases op with
          | read | write =>
            exact ⟨rfl, rfl, m.prevBlock, rfl, rfl, m.blocksize, m.fileBlocks, m.file⟩
  · simp only [ne_eq, idle, not_false_eq_true, ↓reduceIte]
    exact ⟨d, rfl, w, m, rfl⟩

theorem init_spec (w : Working d) (m : Matches d v) :
    ∃ d', diskInit d true = .ok (d', (SystemModel.diskInit v).2) ∧ Working d' ∧
      Matches d' (SystemModel.diskInit v).1 ∧ d'.file.bytes = d.file.bytes := by
  have small := w.small
  have count : toInt ((d.file.bytes.length : Int).tdiv diskBlockSize) = blocks d := by
    have share : (d.file.bytes.length : Int).tdiv diskBlockSize = blocks d := by
      rw [Int.tdiv_eq_ediv_of_nonneg (by omega)]
      simp only [diskBlockSize, blocks]
      omega
    rw [share]
    exact toInt_eq_self (by simp only [intMin]; omega) (by simp only [intMax]; omega)
  simp only [diskInit, SystemModel.diskInit, m.status]
  by_cases unknown : d.status = .unknown
  · simp only [unknown, ne_eq, not_true_eq_false, ↓reduceIte, Bool.true_eq_false, count]
    refine ⟨_, rfl, ⟨w.small, fun _ => ⟨rfl, rfl, rfl, rfl, Int.le_refl 0, Or.inr rfl⟩, ?_,
      fun _ => w.rest (Or.inl unknown)⟩, ?_, rfl⟩
    · intro busy
      rcases busy with busy | busy
      · cases busy
      · cases busy
    · exact ⟨rfl, m.buffer, rfl, rfl, m.fileBlocks, rfl, m.fileBlocks, m.file⟩
  · simp only [ne_eq, unknown, not_false_eq_true, ↓reduceIte]
    exact ⟨d, rfl, w, m, rfl⟩

theorem cmd_refused {d' : Disk} {cmd block : Int} {buffer : Option Nat} {host : Bool} {rand : Nat}
    (run : diskCmd d cmd block buffer host rand = .ok (d', -1)) : d' = d := by
  have unchanged : ∀ {r : Int}, Except.ok (d, r) = (.ok (d', -1) : Except Halt (Disk × Int)) →
      d' = d := fun same => (congrArg Prod.fst (Except.ok.inj same)).symm
  simp only [diskCmd] at run
  split at run
  · simp only [diskInit] at run
    split at run
    · exact unchanged run
    · split at run
      · cases run
      · cases run
  · iterate 5
      split at run
      · exact unchanged run
    split at run
    · split at run
      · exact unchanged run
      · cases buffer with
        | none => exact unchanged run
        | some a =>
          dsimp only at run
          split at run
          · exact unchanged run
          · obtain ⟨d₁, -, same⟩ := map_ok run
            cases same
    · exact unchanged run

end Commands

section Interrupt
variable {d : Disk} {v : Device}

def transferred (d : Disk) (op : Operation) (ram : Nat → UInt8) : List UInt8 :=
  match op with
  | .read => block 64 d.file.bytes d.nextBlock.toNat
  | .write => loadBytes ram d.buffer 64

theorem busy_block (w : Working d) (busy : d.status = .read ∨ d.status = .write) :
    ∃ i, d.nextBlock = (i : Nat) ∧ i < blocks d ∧ toInt (d.nextBlock * d.blocksize) =
      ((64 * i : Nat) : Int) ∧ sizeOfInt d.blocksize = 64 := by
  obtain ⟨low, high, -⟩ := w.busy busy
  have known : d.status ≠ .unknown := by
    intro unknown
    rw [unknown] at busy
    rcases busy with busy | busy
    · cases busy
    · cases busy
  have c := w.configured known
  have count := c.numblocks
  have small := w.small
  refine ⟨d.nextBlock.toNat, by omega, by omega, ?_, by rw [c.blocksize]; rfl⟩
  rw [c.blocksize, toInt_eq_self (by simp only [intMin]; omega) (by simp only [intMax]; omega)]
  omega

theorem done_working (w : Working d) (busy : d.status = .read ∨ d.status = .write)
    {file : File UInt8} (size : file.bytes.length = d.file.bytes.length) :
    Working { d with
      file := file, prevBlock := d.nextBlock, status := .idle, timer := none } := by
  obtain ⟨low, high, -⟩ := w.busy busy
  have known : d.status ≠ .unknown := by
    intro unknown
    rw [unknown] at busy
    rcases busy with busy | busy
    · cases busy
    · cases busy
  have c := w.configured known
  have same : file.bytes.length / 64 = blocks d := by rw [size, blocks]
  refine ⟨?_, fun _ => ⟨?_, c.blocksize, c.delayMin, c.delayMax, low, Or.inl high⟩, ?_,
    fun _ => rfl⟩
  · simp only [blocks, same]
    exact w.small
  · simp only [blocks, same]
    exact c.numblocks
  · intro working
    rcases working with working | working
    · cases working
    · cases working

theorem read_done (w : Working d) (m : Matches d v) (busy : d.status = .read)
    (ram : Nat → UInt8) :
    v.file v.nextBlock = asBlock (transferred d .read ram) ∧
    ∃ d', diskSighandle { d with timer := none } ram =
        .ok (d', storeBlock ram v.buffer (v.file v.nextBlock)) ∧
      Working d' ∧ Matches d' { v with prevBlock := v.nextBlock, status := .idle } ∧
      d'.file.bytes = d.file.bytes := by
  obtain ⟨i, next, inside, position, size⟩ := busy_block w (Or.inl busy)
  have file : v.file v.nextBlock = asBlock (block 64 d.file.bytes i) := by
    rw [m.nextBlock, next]
    exact m.file i inside
  refine ⟨?_, ?_⟩
  · rw [file, transferred, next, Int.toNat_natCast]
  · have data := read_block d.file 64 i
    have bytes : ((d.file.seekSet ((64 * i : Nat) : Int)).read 64).2.bytes = d.file.bytes := by
      rw [seek_offset]
      rfl
    have stored : storeBytes ram d.buffer (block 64 d.file.bytes i) =
        storeBlock ram v.buffer (v.file v.nextBlock) := by
      rw [store_asBlock ram d.buffer (block_length inside), file, m.buffer]
    simp only [diskSighandle, busy, position, size, data, stored]
    refine ⟨_, rfl, done_working w (Or.inl busy) (by rw [bytes]), ?_, bytes⟩
    refine ⟨rfl, m.buffer, m.nextBlock, m.nextBlock, m.numblocks, m.blocksize, ?_, ?_⟩
    · rw [m.fileBlocks, blocks, blocks, bytes]
    · intro j small
      simp only [blocks, bytes] at small
      simp only [bytes]
      exact m.file j small

theorem write_done (w : Working d) (m : Matches d v) (busy : d.status = .write)
    (ram : Nat → UInt8) :
    loadBlock ram v.buffer = asBlock (transferred d .write ram) ∧
    ∃ d', diskSighandle { d with timer := none } ram = .ok (d', ram) ∧ Working d' ∧
      Matches d' { v with
        file := Function.update v.file v.nextBlock (loadBlock ram v.buffer)
        prevBlock := v.nextBlock, status := .idle } ∧
      d'.file.bytes.length = d.file.bytes.length ∧
      ∀ i, blocks d ≤ i → block 64 d'.file.bytes i = block 64 d.file.bytes i := by
  obtain ⟨i, next, inside, position, size⟩ := busy_block w (Or.inr busy)
  have data : loadBlock ram v.buffer = asBlock (loadBytes ram d.buffer 64) := by
    rw [load_asBlock, m.buffer]
  refine ⟨data, ?_⟩
  have whole := load_length ram d.buffer 64
  have written := write_block (f := d.file) inside whole
  have length := write_block_length (f := d.file) inside whole
  simp only [diskSighandle, busy, position, size]
  refine ⟨_, rfl, done_working w (Or.inr busy) length, ?_, length, ?_⟩
  · refine ⟨rfl, m.buffer, m.nextBlock, m.nextBlock, m.numblocks, m.blocksize, ?_, ?_⟩
    · rw [m.fileBlocks, blocks, blocks, length]
    · intro j small
      simp only [blocks, length] at small
      simp only [written, m.nextBlock, next, data]
      by_cases same : j = i
      · subst same
        rw [Function.update_self, if_pos rfl]
      · rw [Function.update_of_ne (by omega), if_neg same]
        exact m.file j small
  · intro j tail
    simp only [written]
    rw [if_neg (by simp only [blocks] at tail inside; omega)]

end Interrupt

end DiskHardware
