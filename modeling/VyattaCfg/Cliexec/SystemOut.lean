import VyattaCfg.Library.Bytes
import VyattaCfg.Library.Runs

namespace VyattaCfg.Cliexec

open ByteString Relation

/-- A call of `system_out`: its arguments, whether there is an `out_stream`, what the pipe holds, and
    whether the calls to the system may fail. -/
structure SystemOut where
  prependMsg : Option Bytes
  eloc : Bool
  outStream : Bool
  capacity : Nat
  fails : Bool

namespace SystemOut

inductive WaitStatus where
  | exited (code : UInt8)
  | signaled

def WaitStatus.result : WaitStatus → Int
  | .exited code => code.toNat
  | .signaled => 1

/-- Why the loop is left. -/
inductive Leaving where
  | eof
  | childDone
  | error

inductive Stage where
  | calling
  | selecting
  | ready
  | timeout
  | left (cause : Leaving)
  | closed (cause : Leaving)
  | returned (ret : Int)

/-- Whether there is a process that could read what is written. -/
def Stage.hasReadEnd : Stage → Bool
  | .selecting | .ready | .timeout | .left _ => true
  | .calling | .closed _ | .returned _ => false

/-- The parent, the child and the pipe between them: what has been read from it and what waits in it,
    whether some process has its write end, and how the child has ended. -/
structure State where
  stage : Stage
  taken : Bytes
  waiting : Bytes
  writers : Bool
  child : Option WaitStatus
  prepend : Bool
  printed : Bytes

def State.start : State := ⟨.calling, [], [], true, none, true, []⟩

/-- Everything that has been written into the pipe. -/
def State.written (s : State) : Bytes := s.taken ++ s.waiting

def errlocStr : Bytes := str "_errloc_:"

def errlocLen : Nat := 9

def bufSize : Nat := 128

/-- What is printed before output that has no error location. -/
def location (c : SystemOut) : Bytes :=
  (if c.eloc then errlocStr else []) ++
    match c.prependMsg with
    | some msg => [ch '['] ++ msg ++ [ch ']', ch '\n']
    | none => []

/-- What is printed before the first buffer, and what is printed of it. -/
def locate (c : SystemOut) (buf : Bytes) : Bytes × Bytes :=
  if errlocLen < buf.length ∧ buf.take errlocLen = errlocStr then
    ([], if c.eloc then buf else buf.drop errlocLen)
  else (c.location, buf)

/-- One buffer that `read` has filled. -/
def emit (c : SystemOut) (s : State) (buf : Bytes) : State :=
  if c.outStream then
    if s.prepend then
      { s with prepend := false, printed := s.printed ++ (c.locate buf).1 ++ (c.locate buf).2 }
    else { s with printed := s.printed ++ buf }
  else s

def finish (c : SystemOut) (s : State) : State :=
  if s.prepend = false ∧ c.outStream then { s with printed := s.printed ++ [ch '\n'] } else s

/-- The child and what it has started. -/
inductive Outside (c : SystemOut) : State → State → Prop where
  | write {s : State} (bytes : Bytes) (reader : s.stage.hasReadEnd) (writer : s.writers)
      (room : s.waiting.length + bytes.length ≤ c.capacity) :
      Outside c s { s with waiting := s.waiting ++ bytes }
  | close {s : State} (started : s.stage ≠ .calling) : Outside c s { s with writers := false }
  -- What the child has started may have the write end of the pipe for longer.
  | exit {s : State} (status : WaitStatus) (started : s.stage ≠ .calling) (running : s.child = none) :
      Outside c s { s with child := some status }

inductive Parent (c : SystemOut) : State → State → Prop where
  | refused {s : State} (calls : s.stage = .calling) (fails : c.fails) :
      Parent c s { s with stage := .returned (-1) }
  | fork {s : State} (calls : s.stage = .calling) : Parent c s { s with stage := .selecting }
  | readable {s : State} (selects : s.stage = .selecting) (readable : s.waiting ≠ [] ∨ s.writers = false) :
      Parent c s { s with stage := .ready }
  | timeout {s : State} (selects : s.stage = .selecting) (empty : s.waiting = []) (writer : s.writers) :
      Parent c s { s with stage := .timeout }
  | unselected {s : State} (selects : s.stage = .selecting) (fails : c.fails) :
      Parent c s { s with stage := .left .error }
  | read {s : State} (count : Nat) (ready : s.stage = .ready) (some : 0 < count) (fits : count ≤ bufSize)
      (there : count ≤ s.waiting.length) :
      Parent c s { c.emit s (s.waiting.take count) with
        stage := .selecting, taken := s.taken ++ s.waiting.take count, waiting := s.waiting.drop count }
  -- `fwrite` fails, after whatever part of the buffer it has written.
  | unwritten {s : State} (count : Nat) (part : Bytes) (ready : s.stage = .ready) (some : 0 < count)
      (fits : count ≤ bufSize) (there : count ≤ s.waiting.length) (out : c.outStream) (fails : c.fails) :
      Parent c s { s with
        stage := .returned (-1), printed := s.printed ++ part, taken := s.taken ++ s.waiting.take count,
        waiting := s.waiting.drop count }
  | eof {s : State} (ready : s.stage = .ready) (empty : s.waiting = []) (closed : s.writers = false) :
      Parent c s { s with stage := .left .eof }
  | unread {s : State} (ready : s.stage = .ready) (fails : c.fails) :
      Parent c s { s with stage := .left .error }
  | running {s : State} (waits : s.stage = .timeout) (runs : s.child = none ∨ c.fails) :
      Parent c s { s with stage := .selecting }
  | childDone {s : State} {status : WaitStatus} (waits : s.stage = .timeout) (ended : s.child = some status) :
      Parent c s { s with stage := .left .childDone }
  | close {s : State} {cause : Leaving} (left : s.stage = .left cause) :
      Parent c s { c.finish s with stage := .closed cause }
  | wait {s : State} {cause : Leaving} {status : WaitStatus} (closed : s.stage = .closed cause)
      (ended : s.child = some status) : Parent c s { s with stage := .returned status.result }
  | unwaited {s : State} {cause : Leaving} (closed : s.stage = .closed cause) (waits : cause ≠ .childDone)
      (fails : c.fails) :
      Parent c s { s with stage := .returned (-1) }

inductive Step (c : SystemOut) (s t : State) : Prop where
  | outside (step : Outside c s t)
  | parent (step : Parent c s t)

abbrev Steps (c : SystemOut) : State → State → Prop := ReflTransGen (Step c)

section Report

variable (c : SystemOut)

def body (count : Nat) (text : Bytes) : Bytes :=
  (c.locate (text.take count)).1 ++ (c.locate (text.take count)).2 ++ text.drop count

/-- What is printed of a text whose first read has brought `count` bytes. -/
def report (count : Nat) (text : Bytes) : Bytes := if text = [] then [] else c.body count text ++ [ch '\n']

structure FirstRead (count : Nat) (text : Bytes) : Prop where
  pos : 0 < count
  fits : count ≤ bufSize
  held : count ≤ c.capacity
  there : count ≤ text.length

variable {c}

theorem body_append {count : Nat} {text : Bytes} (there : count ≤ text.length) (more : Bytes) :
    c.body count (text ++ more) = c.body count text ++ more := by
  simp only [body, List.take_append_of_le_length there, List.drop_append_of_le_length there, List.append_assoc]

theorem body_first (text : Bytes) : c.body text.length text = (c.locate text).1 ++ (c.locate text).2 := by
  simp only [body, List.take_length, List.drop_length, List.append_nil]

theorem FirstRead.append {count : Nat} {text : Bytes} (first : c.FirstRead count text) (more : Bytes) :
    c.FirstRead count (text ++ more) := by
  refine ⟨first.pos, first.fits, first.held, ?_⟩
  rw [List.length_append]
  exact Nat.le_add_right_of_le first.there

end Report

section Invariant

variable {c : SystemOut}

/-- What the loop has printed is the report of what it has read, but for its last line. -/
inductive Shown (c : SystemOut) (s : State) : Prop where
  | nothing (taken : s.taken = []) (prepend : s.prepend = true) (printed : s.printed = [])
  | some (count : Nat) (first : c.FirstRead count s.taken) (prepend : s.prepend = false)
      (printed : s.printed = c.body count s.taken)

/-- A moment of the run at which `select` has timed out, since which nothing has been read. -/
def Moment (c : SystemOut) (s : State) : Prop :=
  ∃ t, Steps c .start t ∧ Steps c t s ∧ t.stage = .timeout ∧ t.waiting = [] ∧ t.taken = s.taken

def LeftBy (c : SystemOut) (s : State) : Leaving → Prop
  | .eof => s.waiting = [] ∧ s.writers = false
  | .childDone => Moment c s ∧ s.child.isSome
  | .error => c.fails

def Reported (c : SystemOut) (s : State) : Prop :=
  ∃ count, (s.taken ≠ [] → c.FirstRead count s.taken) ∧ s.printed = c.report count s.taken

def Inv (c : SystemOut) (s : State) : Prop :=
  match s.stage with
  | .calling => s = .start
  | .selecting | .ready => Shown c s
  | .timeout => Shown c s ∧ Moment c s
  | .left cause => Shown c s ∧ LeftBy c s cause
  | .closed cause => Reported c s ∧ LeftBy c s cause
  | .returned _ => True

theorem outside_stage {s t : State} (step : Outside c s t) : t.stage = s.stage := by
  cases step <;> rfl

theorem outside_taken {s t : State} (step : Outside c s t) : t.taken = s.taken := by
  cases step <;> rfl

theorem Shown.of_same {s t : State} (shown : Shown c s) (taken : t.taken = s.taken) (prepend : t.prepend = s.prepend)
    (printed : t.printed = s.printed) : Shown c t := by
  cases shown with
  | nothing none first empty => exact .nothing (taken.trans none) (prepend.trans first) (printed.trans empty)
  | some count read later text => exact .some count (taken ▸ read) (prepend.trans later) (by rw [printed, text, taken])

theorem Shown.moved {s : State} (shown : Shown c s) (stage : Stage) : Shown c { s with stage } :=
  shown.of_same rfl rfl rfl

theorem outside_shown {s t : State} (step : Outside c s t) (shown : Shown c s) : Shown c t := by
  cases step <;> exact shown.of_same rfl rfl rfl

theorem Moment.step {s t : State} (moment : Moment c s) (step : Step c s t) (taken : t.taken = s.taken) : Moment c t := by
  obtain ⟨m, before, after, timeout, empty, same⟩ := moment
  exact ⟨m, before, after.tail step, timeout, empty, same.trans taken.symm⟩

theorem outside_leftBy {s t : State} {cause : Leaving} (step : Outside c s t) (left : LeftBy c s cause) :
    LeftBy c t cause := by
  cases cause with
  | eof =>
    obtain ⟨empty, closed⟩ := left
    cases step with
    | write bytes reader writer room => exact absurd (writer.symm.trans closed) (by decide)
    | close | exit => exact ⟨empty, by first | rfl | exact closed⟩
  | childDone =>
    obtain ⟨moment, ended⟩ := left
    apply And.intro (moment.step (.outside step) (outside_taken step))
    cases step with
    | write | close => exact ended
    | exit => rfl
  | error => exact left

theorem outside_inv {s t : State} (step : Outside c s t) (inv : Inv c s) : Inv c t := by
  have stage := outside_stage step
  unfold Inv at inv ⊢
  rw [stage]
  cases at_ : s.stage with
  | calling =>
    rw [at_] at inv
    cases step with
    | write bytes reader => rw [at_] at reader; cases reader
    | close started | exit _ started => exact absurd at_ started
  | selecting | ready =>
    rw [at_] at inv
    exact outside_shown step inv
  | timeout =>
    rw [at_] at inv
    exact ⟨outside_shown step inv.1, inv.2.step (.outside step) (outside_taken step)⟩
  | left cause =>
    rw [at_] at inv
    exact ⟨outside_shown step inv.1, outside_leftBy step inv.2⟩
  | closed cause =>
    rw [at_] at inv
    refine ⟨?_, outside_leftBy step inv.2⟩
    have same : t.taken = s.taken ∧ t.printed = s.printed := by cases step <;> exact ⟨rfl, rfl⟩
    unfold Reported
    rw [same.1, same.2]
    exact inv.1
  | returned => trivial

theorem waiting_le {s : State} (run : Steps c .start s) : s.waiting.length ≤ c.capacity := by
  have kept : ∀ s t : State, s.waiting.length ≤ c.capacity → Step c s t → t.waiting.length ≤ c.capacity := by
    intro s t before step
    cases step with
    | outside step =>
      cases step with
      | write bytes reader writer room => rw [List.length_append]; exact room
      | close | exit => exact before
    | parent step =>
      cases step with
      | read | unwritten => rw [List.length_drop]; omega
      | close => simp only [finish]; split <;> exact before
      | _ => exact before
  exact Runs.invariant_of_step kept run (Nat.zero_le _)

/-- Step lemma of the loop's body. -/
theorem read_shown {s : State} {count : Nat} {stage : Stage} (out : c.outStream) (shown : Shown c s) (pos : 0 < count)
    (fits : count ≤ bufSize) (there : count ≤ s.waiting.length) (held : s.waiting.length ≤ c.capacity) :
    Shown c { c.emit s (s.waiting.take count) with
      stage, taken := s.taken ++ s.waiting.take count, waiting := s.waiting.drop count } := by
  have length : (s.waiting.take count).length = count := List.length_take_of_le there
  cases shown with
  | nothing none first empty =>
    have whole : c.body count (s.waiting.take count) =
        (c.locate (s.waiting.take count)).1 ++ (c.locate (s.waiting.take count)).2 := by
      rw [← body_first, length]
    have started : c.emit s (s.waiting.take count) =
        { s with prepend := false, printed := c.body count (s.waiting.take count) } := by
      unfold emit
      rw [if_pos out, if_pos first, empty, List.nil_append, whole]
    rw [started, none, List.nil_append]
    exact .some count ⟨pos, fits, there.trans held, length.ge⟩ rfl rfl
  | some before read later text =>
    have added : c.emit s (s.waiting.take count) = { s with printed := s.printed ++ s.waiting.take count } := by
      unfold emit
      rw [if_pos out, if_neg (by rw [later]; decide)]
    rw [added]
    refine .some before (read.append _) later ?_
    show s.printed ++ _ = _
    rw [text, body_append read.there]

theorem finish_reported {s : State} {cause : Leaving} (out : c.outStream) (shown : Shown c s) :
    Reported c { c.finish s with stage := .closed cause } := by
  cases shown with
  | nothing none first empty =>
    have same : c.finish s = s := by
      unfold finish
      rw [if_neg (by rw [first]; simp)]
    refine ⟨0, ?_, ?_⟩
    · rw [same]
      exact fun some => absurd none some
    · rw [same]
      show s.printed = c.report 0 s.taken
      rw [report, if_pos none, empty]
  | some count read later text =>
    have ended : c.finish s = { s with printed := s.printed ++ [ch '\n'] } := by
      unfold finish
      rw [if_pos ⟨later, out⟩]
    have nonempty : s.taken ≠ [] := by
      intro none
      have there := read.there
      rw [none, List.length_nil] at there
      have pos := read.pos
      omega
    rw [ended]
    refine ⟨count, fun _ => read, ?_⟩
    show s.printed ++ _ = c.report count s.taken
    rw [report, if_neg nonempty, text]

theorem parent_inv {s t : State} (out : c.outStream) (run : Steps c .start s) (step : Parent c s t) (inv : Inv c s) :
    Inv c t := by
  have later : ∀ {t}, Parent c s t → Steps c .start t := fun step => run.tail (.parent step)
  unfold Inv at inv
  cases step with
  | refused | unwritten | wait | unwaited => trivial
  | fork calls =>
    rw [calls] at inv
    rw [inv]
    exact .nothing rfl rfl rfl
  | readable selects =>
    rw [selects] at inv
    exact inv.moved _
  | timeout selects empty writer =>
    rw [selects] at inv
    exact ⟨inv.moved _, _, later (.timeout selects empty writer), .refl, rfl, empty, rfl⟩
  | unselected selects fails =>
    rw [selects] at inv
    exact ⟨inv.moved _, fails⟩
  | read count ready pos fits there =>
    rw [ready] at inv
    exact read_shown out inv pos fits there (waiting_le run)
  | eof ready empty closed =>
    rw [ready] at inv
    exact ⟨inv.moved _, empty, closed⟩
  | unread ready fails =>
    rw [ready] at inv
    exact ⟨inv.moved _, fails⟩
  | running waits =>
    rw [waits] at inv
    exact inv.1.moved _
  | childDone waits ended =>
    rw [waits] at inv
    exact ⟨inv.1.moved _, inv.2.step (.parent (.childDone waits ended)) rfl, by rw [ended]; rfl⟩
  | close left =>
    have kept : ∀ t : State, c.finish s = t → t.taken = s.taken ∧ t.waiting = s.waiting ∧ t.writers = s.writers ∧
        t.child = s.child := by
      rintro t rfl
      unfold finish
      split <;> exact ⟨rfl, rfl, rfl, rfl⟩
    obtain ⟨taken, waiting, writers, child⟩ := kept _ rfl
    rw [left] at inv
    apply And.intro (finish_reported out inv.1)
    rename_i cause
    cases cause with
    | eof => exact ⟨waiting.trans inv.2.1, writers.trans inv.2.2⟩
    | childDone => exact ⟨inv.2.1.step (.parent (.close left)) taken, by rw [child]; exact inv.2.2⟩
    | error => exact inv.2

theorem reachable_inv {s : State} (out : c.outStream) (run : Steps c .start s) : Inv c s := by
  induction run with
  | refl => rfl
  | tail before step ih =>
    cases step with
    | outside step => exact outside_inv step ih
    | parent step => exact parent_inv out before step ih

end Invariant

/-- However the command's output comes in, what has been printed when the loop is over is the report of what
    has been read; and that is all that was ever written, or all that was at the last time-out of `select`. -/
theorem systemOut_prints {c : SystemOut} {s : State} {cause : Leaving} (out : c.outStream) (run : Steps c .start s)
    (closed : s.stage = .closed cause) :
    (∃ count, (s.taken ≠ [] → c.FirstRead count s.taken) ∧ s.printed = c.report count s.taken) ∧
      match cause with
      | .eof => s.taken = s.written ∧ s.writers = false
      | .childDone => s.child.isSome ∧
          ∃ t, Steps c .start t ∧ Steps c t s ∧ t.stage = .timeout ∧ t.written = s.taken
      | .error => c.fails := by
  have inv := reachable_inv out run
  unfold Inv at inv
  rw [closed] at inv
  obtain ⟨reported, left⟩ := inv
  apply And.intro reported
  cases cause with
  | eof =>
    refine ⟨?_, left.2⟩
    rw [State.written, left.1, List.append_nil]
  | childDone =>
    obtain ⟨⟨t, before, after, timeout, empty, taken⟩, ended⟩ := left
    refine ⟨ended, t, before, after, timeout, ?_⟩
    rw [State.written, empty, List.append_nil, taken]
  | error => exact left

/-- A command that writes and ends between a time-out of `select` and `waitpid`. -/
theorem systemOut_prints_late :
    (∃ count, (([] : Bytes) ≠ [] → (⟨none, false, true, 65536, false⟩ : SystemOut).FirstRead count []) ∧
      [] = (⟨none, false, true, 65536, false⟩ : SystemOut).report count []) ∧
      (some (WaitStatus.exited 1)).isSome ∧
        ∃ t, Steps ⟨none, false, true, 65536, false⟩ .start t ∧
          Steps ⟨none, false, true, 65536, false⟩ t
            ⟨.closed .childDone, [], str "no", true, some (.exited 1), true, []⟩ ∧
          t.stage = .timeout ∧ t.written = [] := by
  have forked : Step ⟨none, false, true, 65536, false⟩ .start ⟨.selecting, [], [], true, none, true, []⟩ :=
    .parent (.fork rfl)
  have timeout : Step ⟨none, false, true, 65536, false⟩ ⟨.selecting, [], [], true, none, true, []⟩
      ⟨.timeout, [], [], true, none, true, []⟩ := .parent (.timeout rfl rfl rfl)
  have written : Step ⟨none, false, true, 65536, false⟩ ⟨.timeout, [], [], true, none, true, []⟩
      ⟨.timeout, [], str "no", true, none, true, []⟩ := .outside (.write (str "no") rfl rfl (by decide))
  have ended : Step ⟨none, false, true, 65536, false⟩ ⟨.timeout, [], str "no", true, none, true, []⟩
      ⟨.timeout, [], str "no", true, some (.exited 1), true, []⟩ := .outside (.exit _ (by nofun) rfl)
  have found : Step ⟨none, false, true, 65536, false⟩ ⟨.timeout, [], str "no", true, some (.exited 1), true, []⟩
      ⟨.left .childDone, [], str "no", true, some (.exited 1), true, []⟩ := .parent (.childDone rfl rfl)
  have closed : Step ⟨none, false, true, 65536, false⟩
      ⟨.left .childDone, [], str "no", true, some (.exited 1), true, []⟩
      ⟨.closed .childDone, [], str "no", true, some (.exited 1), true, []⟩ := .parent (.close rfl)
  exact systemOut_prints rfl
    (((((ReflTransGen.single forked).tail timeout).tail written).tail ended).tail found |>.tail closed) rfl

end SystemOut

end VyattaCfg.Cliexec
