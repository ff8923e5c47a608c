import VyattaCfg.Cliexec.SystemOut

namespace VyattaCfg.Cliexec.SystemOut

open ByteString Relation

/-- A call with an `out_stream` in which no call to the system fails. -/
def undisturbed (prependMsg : Option Bytes) (eloc : Bool) (capacity : Nat) : SystemOut :=
  ⟨prependMsg, eloc, true, capacity, false⟩

/-- The call can return for a command with this status, of which it has read `shown` and left `lost`. -/
def Ends (c : SystemOut) (status : WaitStatus) (shown lost printed : Bytes) : Prop :=
  ∃ s, Steps c .start s ∧ s.stage = .returned status.result ∧ s.child = some status ∧
    s.taken = shown ∧ s.waiting = lost ∧ s.printed = printed

section Returned

variable {c : SystemOut}

theorem returned_closed {s : State} {ret : Int} (sound : c.fails = false) (run : Steps c .start s)
    (returned : s.stage = .returned ret) :
    ∃ u cause status, Steps c .start u ∧ u.stage = .closed cause ∧ s.child = some status ∧ ret = status.result ∧
      s.taken = u.taken ∧ s.waiting = u.waiting ∧ s.printed = u.printed := by
  induction run with
  | refl => cases returned
  | tail before step ih =>
    cases step with
    | outside step =>
      obtain ⟨u, cause, status, run, closed, ended, result, taken, waiting, printed⟩ :=
        ih ((outside_stage step).symm.trans returned)
      refine ⟨u, cause, status, run, closed, ?_⟩
      cases step with
      | write bytes reader =>
        rw [show _ = Stage.returned ret from returned] at reader
        cases reader
      | close => exact ⟨ended, result, taken, waiting, printed⟩
      | exit _ _ running => exact nomatch running.symm.trans ended
    | parent step =>
      cases step with
      | refused _ fails | unwritten _ _ _ _ _ _ _ fails | unwaited _ _ fails => exact nomatch sound.symm.trans fails
      | wait closed ended =>
        cases returned
        exact ⟨_, _, _, before, closed, ended, rfl, rfl, rfl, rfl⟩
      | _ => cases returned

theorem no_error {s : State} {cause : Leaving} (_ : c.fails = false) (out : c.outStream) (run : Steps c .start s)
    (closed : s.stage = .closed cause) :
    ∃ count, (s.taken ≠ [] → c.FirstRead count s.taken) ∧ s.printed = c.report count s.taken := by
  have inv := reachable_inv out run
  unfold Inv at inv
  rw [closed] at inv
  exact inv.1

end Returned

section Runs

variable {c : SystemOut}

/-- The child writes, `select` sees it and one `read` takes it. -/
theorem steps_read {s : State} {bytes : Bytes} (selects : s.stage = .selecting) (empty : s.waiting = [])
    (writer : s.writers) (pos : 0 < bytes.length) (fits : bytes.length ≤ bufSize) (held : bytes.length ≤ c.capacity) :
    Steps c s { c.emit s bytes with taken := s.taken ++ bytes } := by
  obtain ⟨stage, taken, waiting, writers, child, prepend, printed⟩ := s
  cases selects
  cases empty
  cases writer
  have nonempty : bytes ≠ [] := List.ne_nil_of_length_pos pos
  have written : Step c ⟨.selecting, taken, [], true, child, prepend, printed⟩
      ⟨.selecting, taken, bytes, true, child, prepend, printed⟩ :=
    .outside (.write bytes rfl rfl (by rw [List.length_nil, Nat.zero_add]; exact held))
  have selected : Step c ⟨.selecting, taken, bytes, true, child, prepend, printed⟩
      ⟨.ready, taken, bytes, true, child, prepend, printed⟩ := .parent (.readable rfl (.inl nonempty))
  have read : Step c ⟨.ready, taken, bytes, true, child, prepend, printed⟩ _ :=
    .parent (.read bytes.length rfl pos fits le_rfl)
  simp only [List.take_length, List.drop_length] at read
  have same : { c.emit ⟨.ready, taken, bytes, true, child, prepend, printed⟩ bytes with
      stage := .selecting, taken := taken ++ bytes, waiting := [] } =
      { c.emit ⟨.selecting, taken, [], true, child, prepend, printed⟩ bytes with taken := taken ++ bytes } := by
    unfold emit
    split
    · split <;> rfl
    · rfl
  rw [same] at read
  exact ((ReflTransGen.single written).tail selected).tail read

/-- After the first, every read is printed as it is. -/
theorem steps_rest {taken printed : Bytes} (out : c.outStream) (room : 0 < c.capacity) (more : Bytes) :
    Steps c ⟨.selecting, taken, [], true, none, false, printed⟩
      ⟨.selecting, taken ++ more, [], true, none, false, printed ++ more⟩ := by
  induction more generalizing taken printed with
  | nil =>
    rw [List.append_nil, List.append_nil]
  | cons byte more ih =>
    have first : Steps c ⟨.selecting, taken, [], true, none, false, printed⟩
        ⟨.selecting, taken ++ [byte], [], true, none, false, printed ++ [byte]⟩ := by
      have read := @steps_read c ⟨.selecting, taken, [], true, none, false, printed⟩ [byte] rfl rfl rfl
        Nat.one_pos (show 1 ≤ 128 by decide) room
      rw [emit, if_pos out] at read
      exact read
    have rest := @ih (taken ++ [byte]) (printed ++ [byte])
    rw [List.append_assoc, List.append_assoc] at rest
    exact first.trans rest

theorem steps_shown {count : Nat} {text : Bytes} (out : c.outStream) (first : c.FirstRead count text) :
    Steps c .start ⟨.selecting, text, [], true, none, false, c.body count text⟩ := by
  have length : (text.take count).length = count := List.length_take_of_le first.there
  have started : Step c .start ⟨.selecting, [], [], true, none, true, []⟩ := .parent (.fork rfl)
  have read := @steps_read c ⟨.selecting, [], [], true, none, true, []⟩ (text.take count) rfl rfl rfl
    (by rw [length]; exact first.pos) (by rw [length]; exact first.fits) (by rw [length]; exact first.held)
  rw [emit, if_pos out, if_pos rfl] at read
  have rest := @steps_rest c (text.take count) ((c.locate (text.take count)).1 ++ (c.locate (text.take count)).2) out
    (first.pos.trans_le first.held) (text.drop count)
  rw [List.take_append_drop] at rest
  exact (ReflTransGen.head started read).trans rest

/-- `select` times out, and the child writes its last and ends before `waitpid`. -/
theorem steps_end {taken lost printed : Bytes} {prepend : Bool} (out : c.outStream) (status : WaitStatus)
    (held : lost.length ≤ c.capacity) :
    Steps c ⟨.selecting, taken, [], true, none, prepend, printed⟩ ⟨.returned status.result, taken, lost, true, some status,
      prepend, if prepend then printed else printed ++ [ch '\n']⟩ := by
  have timeout : Step c ⟨.selecting, taken, [], true, none, prepend, printed⟩
      ⟨.timeout, taken, [], true, none, prepend, printed⟩ := .parent (.timeout rfl rfl rfl)
  have written : Step c ⟨.timeout, taken, [], true, none, prepend, printed⟩
      ⟨.timeout, taken, lost, true, none, prepend, printed⟩ :=
    .outside (.write lost rfl rfl (by rw [List.length_nil, Nat.zero_add]; exact held))
  have ended : Step c ⟨.timeout, taken, lost, true, none, prepend, printed⟩
      ⟨.timeout, taken, lost, true, some status, prepend, printed⟩ := .outside (.exit status (by nofun) rfl)
  have found : Step c ⟨.timeout, taken, lost, true, some status, prepend, printed⟩
      ⟨.left .childDone, taken, lost, true, some status, prepend, printed⟩ := .parent (.childDone rfl rfl)
  have closed : Step c ⟨.left .childDone, taken, lost, true, some status, prepend, printed⟩ _ := .parent (.close rfl)
  have same : c.finish ⟨.left .childDone, taken, lost, true, some status, prepend, printed⟩ =
      ⟨.left .childDone, taken, lost, true, some status, prepend,
        if prepend then printed else printed ++ [ch '\n']⟩ := by
    unfold finish
    cases prepend with
    | true => rfl
    | false => rw [if_pos ⟨rfl, out⟩]; rfl
  rw [same] at closed
  have returned : Step c ⟨.closed .childDone, taken, lost, true, some status, prepend,
      if prepend then printed else printed ++ [ch '\n']⟩ _ := .parent (.wait rfl rfl)
  exact (((((ReflTransGen.single timeout).tail written).tail ended).tail found).tail closed).tail returned

end Runs

/-- Whatever is read first and in whatever pieces, and whatever the pipe holds of what the command writes last may be
    left in it. -/
theorem ends_iff (prependMsg : Option Bytes) (eloc : Bool) (capacity : Nat) (status : WaitStatus)
    (shown lost printed : Bytes) :
    Ends (undisturbed prependMsg eloc capacity) status shown lost printed ↔
      lost.length ≤ capacity ∧ ∃ count, (shown ≠ [] → (undisturbed prependMsg eloc capacity).FirstRead count shown) ∧
        printed = (undisturbed prependMsg eloc capacity).report count shown := by
  constructor
  · intro ends
    obtain ⟨s, run, returned, -, rfl, rfl, rfl⟩ := ends
    apply And.intro (waiting_le run)
    obtain ⟨u, cause, -, before, closed, -, -, taken, -, printed⟩ := returned_closed rfl run returned
    rw [taken, printed]
    exact no_error rfl rfl before closed
  · intro possible
    obtain ⟨held, count, first, rfl⟩ := possible
    by_cases nothing : shown = []
    · have started : Step (undisturbed prependMsg eloc capacity) .start ⟨.selecting, [], [], true, none, true, []⟩ :=
        .parent (.fork rfl)
      refine ⟨_, .head started (steps_end rfl status held), rfl, rfl, nothing.symm, rfl, ?_⟩
      rw [report, if_pos nothing]
      rfl
    · refine ⟨_, (steps_shown rfl (first nothing)).trans (steps_end rfl status held), rfl, rfl, rfl, rfl, ?_⟩
      rw [report, if_neg nothing]
      rfl

section Location

variable {c : SystemOut}

def located (text : Bytes) : Bytes := if c.eloc then text else text.drop errlocLen

def unlocated (text : Bytes) : Bytes := c.location ++ text

theorem recognised_iff {count : Nat} {text : Bytes} (there : count ≤ text.length) :
    errlocLen < (text.take count).length ∧ (text.take count).take errlocLen = errlocStr ↔
      errlocLen < count ∧ errlocStr <+: text := by
  rw [List.length_take_of_le there, List.prefix_iff_eq_take]
  apply and_congr_right
  intro long
  rw [List.take_take, Nat.min_eq_left long.le]
  exact eq_comm

theorem body_eq {count : Nat} {text : Bytes} (there : count ≤ text.length) :
    c.body count text =
      if errlocLen < count ∧ errlocStr <+: text then c.located text else c.unlocated text := by
  rw [body, locate]
  by_cases recognised : errlocLen < count ∧ errlocStr <+: text
  · rw [if_pos ((recognised_iff there).mpr recognised), if_pos recognised, located]
    cases c.eloc with
    | true => exact List.take_append_drop count text
    | false =>
      have long : errlocLen ≤ (text.take count).length := by
        rw [List.length_take_of_le there]
        exact recognised.1.le
      show (text.take count).drop errlocLen ++ text.drop count = text.drop errlocLen
      rw [← List.drop_append_of_le_length long, List.take_append_drop]
  · rw [if_neg ((recognised_iff there).not.mpr recognised), if_neg recognised, unlocated, List.append_assoc,
      List.take_append_drop]

theorem located_ne_unlocated {text : Bytes} (long : errlocLen < text.length) : c.located text ≠ c.unlocated text := by
  intro same
  have lengths := congrArg List.length same
  rw [located, unlocated, location, List.length_append, List.length_append] at lengths
  cases eloc : c.eloc with
  | true =>
    rw [eloc, if_pos rfl, if_pos rfl] at lengths
    have : errlocStr.length = 9 := rfl
    omega
  | false =>
    rw [eloc, if_neg (by decide), List.length_drop] at lengths
    have : errlocLen = 9 := rfl
    omega

end Location

/-- A first read of nine bytes or less does not tell an error location. -/
theorem raced_iff (prependMsg : Option Bytes) (eloc : Bool) (capacity : Nat) (status : WaitStatus)
    (text : Bytes) :
    (∃ one other, Ends (undisturbed prependMsg eloc capacity) status text [] one ∧
      Ends (undisturbed prependMsg eloc capacity) status text [] other ∧ one ≠ other) ↔
      errlocStr <+: text ∧ errlocLen < text.length ∧ errlocLen < capacity := by
  constructor
  · intro raced
    obtain ⟨one, other, ends₁, ends₂, differ⟩ := raced
    obtain ⟨-, n, first₁, rfl⟩ := (ends_iff ..).mp ends₁
    obtain ⟨-, m, first₂, rfl⟩ := (ends_iff ..).mp ends₂
    by_cases nothing : text = []
    · rw [report, report, if_pos nothing, if_pos nothing] at differ
      exact absurd rfl differ
    · have read₁ := first₁ nothing
      have read₂ := first₂ nothing
      rw [report, report, if_neg nothing, if_neg nothing, body_eq read₁.there, body_eq read₂.there] at differ
      have held₁ : n ≤ capacity := read₁.held
      have held₂ : m ≤ capacity := read₂.held
      by_cases long₁ : errlocLen < n ∧ errlocStr <+: text
      · exact ⟨long₁.2, long₁.1.trans_le read₁.there, long₁.1.trans_le held₁⟩
      · by_cases long₂ : errlocLen < m ∧ errlocStr <+: text
        · exact ⟨long₂.2, long₂.1.trans_le read₂.there, long₂.1.trans_le held₂⟩
        · rw [if_neg long₁, if_neg long₂] at differ
          exact absurd rfl differ
  · intro located
    obtain ⟨front, long, room⟩ := located
    have nonempty : text ≠ [] := List.ne_nil_of_length_pos (Nat.zero_lt_of_lt long)
    have read : ∀ count, 0 < count → count ≤ errlocLen + 1 →
        (undisturbed prependMsg eloc capacity).FirstRead count text := by
      intro count pos short
      have fits : errlocLen + 1 ≤ bufSize := by decide
      exact ⟨pos, short.trans fits, short.trans room, short.trans long⟩
    refine ⟨_, _, (ends_iff ..).mpr ⟨Nat.zero_le _, 1, fun _ => read 1 (by decide) (by decide), rfl⟩,
      (ends_iff ..).mpr ⟨Nat.zero_le _, errlocLen + 1, fun _ => read _ (by decide) le_rfl, rfl⟩, ?_⟩
    rw [report, report, if_neg nonempty, if_neg nonempty, body_eq (read 1 (by decide) (by decide)).there,
      body_eq (read _ (by decide) le_rfl).there, if_neg (by rintro ⟨short, -⟩; exact absurd short (by decide)),
      if_pos ⟨Nat.lt_succ_self _, front⟩]
    intro same
    exact located_ne_unlocated long (List.append_cancel_right same).symm

/-- The outcomes of a call, and which outputs two calls that read all of them can print differently: exactly those with
    an error location in front of something. -/
theorem systemOut_outcomes (prependMsg : Option Bytes) (eloc : Bool) (capacity : Nat) (status : WaitStatus) :
    (∀ shown lost printed, Ends (undisturbed prependMsg eloc capacity) status shown lost printed ↔
      lost.length ≤ capacity ∧ ∃ count, (shown ≠ [] → (undisturbed prependMsg eloc capacity).FirstRead count shown) ∧
        printed = (undisturbed prependMsg eloc capacity).report count shown) ∧
      ∀ text, (∃ one other, Ends (undisturbed prependMsg eloc capacity) status text [] one ∧
        Ends (undisturbed prependMsg eloc capacity) status text [] other ∧ one ≠ other) ↔
          errlocStr <+: text ∧ errlocLen < text.length ∧ errlocLen < capacity :=
  ⟨ends_iff prependMsg eloc capacity status, raced_iff prependMsg eloc capacity status⟩

section Ending

variable {c : SystemOut}

def stepsLeft (s : State) : Nat :=
  match s.stage with
  | .calling => 2 * s.waiting.length + 5
  | .selecting => 2 * s.waiting.length + 4
  | .ready | .timeout => 2 * s.waiting.length + 3
  | .left _ => 2
  | .closed _ => 1
  | .returned _ => 0

theorem parent_stepsLeft {s t : State} {status : WaitStatus} (sound : c.fails = false) (ended : s.child = some status)
    (step : Parent c s t) : stepsLeft t < stepsLeft s ∧ t.child = some status := by
  cases step with
  | refused _ fails | unselected _ fails | unwritten _ _ _ _ _ _ _ fails | unread _ fails | unwaited _ _ fails =>
    exact nomatch sound.symm.trans fails
  | running _ runs =>
    rcases runs with runs | fails
    · exact nomatch runs.symm.trans ended
    · exact nomatch sound.symm.trans fails
  | read count ready pos fits there =>
    apply And.intro
    · simp only [stepsLeft, ready, List.length_drop]
      omega
    · show (c.emit s _).child = _
      unfold emit
      split
      · split <;> exact ended
      · exact ended
  | close left =>
    apply And.intro
    · simp only [stepsLeft, left]
      omega
    · show (c.finish s).child = _
      unfold finish
      split <;> exact ended
  | fork at_ | readable at_ | timeout at_ | eof at_ | childDone at_ | wait at_ =>
    refine ⟨?_, ended⟩
    simp only [stepsLeft, at_]
    omega

/-- Once `select` has said so, there is something to read. -/
theorem ready_readable {s : State} (run : Steps c .start s) (ready : s.stage = .ready) :
    s.waiting ≠ [] ∨ s.writers = false := by
  induction run with
  | refl => cases ready
  | tail before step ih =>
    cases step with
    | outside step =>
      have was := ih ((outside_stage step).symm.trans ready)
      cases step with
      | write bytes _ writer =>
        rcases was with some | closed
        · exact .inl (List.append_ne_nil_of_left_ne_nil some _)
        · exact nomatch closed.symm.trans writer
      | close => exact .inr rfl
      | exit => exact was
    | parent step =>
      cases step with
      | readable _ readable => exact readable
      | _ => cases ready

theorem parent_moves {s : State} {status : WaitStatus} (run : Steps c .start s) (ended : s.child = some status)
    (stuck : ∀ t, ¬ Parent c s t) : ∃ ret, s.stage = .returned ret := by
  cases at_ : s.stage with
  | calling => exact absurd (.fork at_) (stuck _)
  | selecting =>
    by_cases empty : s.waiting = []
    · cases writer : s.writers with
      | true => exact absurd (.timeout at_ empty writer) (stuck _)
      | false => exact absurd (.readable at_ (.inr writer)) (stuck _)
    · exact absurd (.readable at_ (.inl empty)) (stuck _)
  | ready =>
    by_cases empty : s.waiting = []
    · rcases ready_readable run at_ with some | closed
      · exact absurd empty some
      · exact absurd (.eof at_ empty closed) (stuck _)
    · have pos : 1 ≤ s.waiting.length := List.length_pos_iff.mpr empty
      exact absurd (.read 1 at_ Nat.one_pos (by decide) pos) (stuck _)
  | timeout => exact absurd (.childDone at_ ended) (stuck _)
  | left cause => exact absurd (.close at_) (stuck _)
  | closed cause => exact absurd (.wait at_ ended) (stuck _)
  | returned ret => exact ⟨ret, rfl⟩

end Ending

end VyattaCfg.Cliexec.SystemOut
