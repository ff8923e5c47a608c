import VyattaCfg.Cliexec.ExpandString

namespace VyattaCfg.Cliexec

open ByteString VyattaCfg.Client

def exeStringDelta : Nat := 512

/-- What `exe_string` points to, `exe_string_len`, and how often `my_realloc` has been called. -/
structure ExeBuffer where
  allocation : Nat := 0
  exeStringLen : Nat := 0
  asked : Nat := 0
  deriving DecidableEq, Repr

/-- A moment of a call: the buffer, `left`, the bytes in front of `resp`, and the end of what was
    written last. -/
structure Moment extends ExeBuffer where
  left : Nat
  text : Bytes
  reach : Nat
  deriving DecidableEq, Repr

/-- A stretch of a call: the moments it goes through, the last one, and how the call ended if it did. -/
structure Passage where
  moments : List Moment
  now : Moment
  ending : Option (Except Abort Int)

namespace Passage

def still (m : Moment) : Passage := ⟨[], m, none⟩

def step (m : Moment) : Passage := ⟨[m], m, none⟩

def stop (ending : Except Abort Int) (m : Moment) : Passage := ⟨[m], m, some ending⟩

def behind (p : Passage) (m : Moment) : Passage := { p with moments := m :: p.moments }

def andThen (p : Passage) (next : Moment → Passage) : Passage :=
  if p.ending.isSome then p
  else ⟨p.moments ++ (next p.now).moments, (next p.now).now, (next p.now).ending⟩

end Passage

section Room

variable (granted : Nat → Bool)

def grown (m : Moment) : Moment where
  allocation := m.exeStringLen + exeStringDelta
  exeStringLen := m.exeStringLen + exeStringDelta
  asked := m.asked + 1
  left := m.left + exeStringDelta
  text := m.text
  reach := 0

/-- The length has been advanced before the memory was asked for. -/
def refused (m : Moment) : Moment :=
  { m with exeStringLen := m.exeStringLen + exeStringDelta, asked := m.asked + 1, reach := 0 }

def growth (m : Moment) : Passage :=
  if granted m.asked then .step (grown m) else .stop (.ok (-1)) (refused m)

/-- `while (len + 1 > left)` -/
def makeRoom (len : Nat) (m : Moment) : Passage :=
  if len + 1 > m.left then
    if granted m.asked then (makeRoom len (grown m)).behind (grown m) else .stop (.ok (-1)) (refused m)
  else .still m
termination_by len + 1 - m.left
decreasing_by
  have larger : (grown m).left = m.left + 512 := rfl
  omega

def putChar (c : Bytes) (m : Moment) : Moment :=
  { m with left := m.left - 1, text := m.text ++ c, reach := m.text.length + 1 }

/-- `strcpy(resp, cp)`, which writes a NUL behind the text. -/
def copyText (cp : Bytes) (m : Moment) : Moment :=
  { m with left := m.left - cp.length, text := m.text ++ cp, reach := m.text.length + cp.length + 1 }

/-- Only a round that copies a character goes on by one; the others replace a reference. -/
def put {σ : Type} (round : ExpandRound σ) (m : Moment) : Passage :=
  if round.advance = 1 then .step (putChar round.copied m)
  else (makeRoom granted round.copied.length m).andThen fun m => .step (copyText round.copied m)

def terminated (m : Moment) : Moment := { m with reach := m.text.length + 1 }

variable {σ : Type} (w : World σ) (g : Globals)

def bufferLoop (scanp : Bytes) (state : σ) (m : Moment) : Passage :=
  (if m.left ≤ 1 then growth granted m else .still m).andThen fun m =>
  match _ : expandRound w g scanp state with
  | .error abort => .stop (.error abort) m
  | .ok none => .stop (.ok (-1)) m
  | .ok (some round) =>
    (put granted round m).andThen fun m =>
    match round.scanned.drop round.advance with
    | [] => .stop (.error .overrun) m
    | next :: _ =>
      if next = 0 then .stop (.ok 0) (terminated m)
      else bufferLoop (round.scanned.drop round.advance) round.state m
termination_by scanp.length
decreasing_by
  have moved := expandRound_advance w g (by assumption)
  rw [List.length_drop]
  omega

/-- A call, with the answers that its references get. -/
structure ExpandCall (σ : Type) where
  world : World σ
  globals : Globals
  state : σ
  stringp : Bytes

def expandInto (call : ExpandCall σ) (buffer : ExeBuffer) : Passage :=
  let start : Moment := { buffer with left := buffer.exeStringLen, text := [], reach := 0 }
  (bufferLoop granted call.world call.globals (call.stringp ++ [0]) call.state start).behind start

/-- The moments of one call after the other, and the buffer behind them. The process may end. -/
def expandCalls : List (ExpandCall σ) → ExeBuffer → List Moment × ExeBuffer
  | [], buffer => ([], buffer)
  | call :: calls, buffer =>
    let p := expandInto granted call buffer
    match p.ending with
    | some (.ok _) =>
      let later := expandCalls calls p.now.toExeBuffer
      (p.moments ++ later.1, later.2)
    | some (.error _) | none => (p.moments, p.now.toExeBuffer)

end Room

/-- What is to hold of `exe_string_len`, `left` and the last write. -/
structure Moment.Sound (m : Moment) : Prop where
  recorded : m.exeStringLen ≤ m.allocation
  remaining : m.left + m.text.length = m.exeStringLen
  inside : m.reach ≤ m.allocation

structure Moment.Exact (m : Moment) : Prop where
  recorded : m.exeStringLen = m.allocation
  remaining : m.left + m.text.length = m.exeStringLen
  inside : m.reach ≤ m.allocation

theorem Moment.Exact.sound {m : Moment} (exact : m.Exact) : m.Sound :=
  ⟨exact.recorded.le, exact.remaining, exact.inside⟩

/-- A stretch from `asked` on: either its reallocations succeed and every moment is sound, or one of
    them fails and a moment is not. -/
inductive Told (granted : Nat → Bool) (asked : Nat) (p : Passage) (Post : Moment → Prop) : Prop where
  | given : asked ≤ p.now.asked → (∀ n, asked ≤ n → n < p.now.asked → granted n = true) →
    (∀ m ∈ p.moments, m.Sound) → p.now.Exact → (p.ending = none → Post p.now) → Told granted asked p Post
  | failed (n : Nat) : asked ≤ n → n < p.now.asked → granted n = false → (∃ m ∈ p.moments, ¬ m.Sound) →
    p.ending = some (.ok (-1)) → Told granted asked p Post

namespace Told

variable {granted : Nat → Bool} {asked : Nat} {p : Passage} {Post Next : Moment → Prop} {m : Moment}

theorem quiet (exact : p.now.Exact) (only : ∀ m ∈ p.moments, m = p.now) (post : p.ending = none → Post p.now) :
    Told granted p.now.asked p Post := by
  apply Told.given (le_refl _)
  · intro n low high
    exact absurd high (not_lt.mpr low)
  · intro m member
    rw [only m member]
    exact exact.sound
  · exact exact
  · exact post

theorem still (exact : m.Exact) (post : Post m) : Told granted m.asked (.still m) Post :=
  quiet (p := .still m) exact (fun _ member => absurd member List.not_mem_nil) fun _ => post

theorem step (exact : m.Exact) (post : Post m) : Told granted m.asked (.step m) Post :=
  quiet (p := .step m) exact (fun _ member => List.mem_singleton.mp member) fun _ => post

theorem stop {ending : Except Abort Int} (exact : m.Exact) : Told granted m.asked (.stop ending m) Post :=
  quiet (p := .stop ending m) exact (fun _ member => List.mem_singleton.mp member) fun going => nomatch going

theorem behind {before after : Nat} (rest : Told granted after p Post) (sound : m.Sound) (order : before ≤ after)
    (answers : ∀ n, before ≤ n → n < after → granted n = true) : Told granted before (p.behind m) Post := by
  cases rest with
  | given low given sound' exact post =>
    have earlier : before ≤ (p.behind m).now.asked := order.trans low
    apply Told.given earlier
    · intro n from' to'
      by_cases first : n < after
      · exact answers n from' first
      · exact given n (not_lt.mp first) to'
    · intro x member
      rcases List.mem_cons.mp member with rfl | member
      · exact sound
      · exact sound' x member
    · exact exact
    · exact post
  | failed n low high refusal unsound ended =>
    obtain ⟨x, member, unsound⟩ := unsound
    exact .failed n (order.trans low) high refusal ⟨x, List.mem_cons_of_mem _ member, unsound⟩ ended

theorem behind_grown (rest : Told granted (m.asked + 1) p Post) (sound : (grown m).Sound)
    (answer : granted m.asked = true) : Told granted m.asked (p.behind (grown m)) Post := by
  apply rest.behind sound (Nat.le_succ _)
  intro n low high
  rw [Nat.eq_of_le_of_lt_succ low high]
  exact answer

theorem andThen {next : Moment → Passage} (first : Told granted asked p Post)
    (rest : ∀ m, m.Exact → Post m → Told granted m.asked (next m) Next) :
    Told granted asked (p.andThen next) Next := by
  unfold Passage.andThen
  cases first with
  | failed n low high refusal unsound ended =>
    rw [if_pos (by rw [ended]; rfl)]
    exact .failed n low high refusal unsound ended
  | given low given sound exact post =>
    by_cases going : p.ending = none
    · rw [if_neg (by rw [going]; exact Bool.false_ne_true)]
      cases rest p.now exact (post going) with
      | given low' given' sound' exact' post' =>
        refine Told.given (p := ⟨_, _, _⟩) (low.trans low') ?_ ?_ exact' post'
        · intro n from' to'
          by_cases early : n < p.now.asked
          · exact given n from' early
          · exact given' n (not_lt.mp early) to'
        · intro m member
          rcases List.mem_append.mp member with member | member
          · exact sound m member
          · exact sound' m member
      | failed n low' high' refusal unsound ended =>
        obtain ⟨m, member, unsound⟩ := unsound
        exact .failed n (low.trans low') high' refusal ⟨m, List.mem_append_right _ member, unsound⟩ ended
    · rw [if_pos (Option.isSome_iff_ne_none.mpr going)]
      exact .given low given sound exact fun none => absurd none going

theorem refusal (exact : m.Exact) (answer : granted m.asked = false) :
    Told granted m.asked (.stop (.ok (-1)) (refused m)) Post := by
  apply Told.failed m.asked (le_refl _) (Nat.lt_succ_self _) answer
  · refine ⟨refused m, List.mem_singleton_self _, ?_⟩
    intro sound
    have recorded : m.exeStringLen + 512 ≤ m.allocation := sound.recorded
    have same := exact.recorded
    omega
  · rfl

end Told

section Loop

variable {granted : Nat → Bool} {m : Moment}

theorem grown_exact (exact : m.Exact) : (grown m).Exact := by
  refine ⟨rfl, ?_, Nat.zero_le _⟩
  have remaining := exact.remaining
  simp only [grown]
  omega

theorem growth_told (exact : m.Exact) : Told granted m.asked (growth granted m) fun x => 2 ≤ x.left := by
  unfold growth
  by_cases answer : granted m.asked = true
  · rw [if_pos answer]
    have told : Told granted (m.asked + 1) (.still (grown m)) fun x => 2 ≤ x.left := by
      apply Told.still (m := grown m) (grown_exact exact)
      have larger : (grown m).left = m.left + 512 := rfl
      omega
    exact told.behind_grown (grown_exact exact).sound answer
  · rw [if_neg answer]
    exact .refusal exact (Bool.eq_false_iff.mpr answer)

theorem makeRoom_told (len : Nat) (exact : m.Exact) :
    Told granted m.asked (makeRoom granted len m) fun x => len + 1 ≤ x.left := by
  fun_induction makeRoom granted len m with
  | case1 m short answer ih => exact (ih (grown_exact exact)).behind_grown (grown_exact exact).sound answer
  | case2 m short answer => exact .refusal exact (Bool.eq_false_iff.mpr answer)
  | case3 m enough => exact .still exact (by omega)

theorem put_told {σ : Type} {round : ExpandRound σ} (single : round.advance = 1 → round.copied.length = 1)
    (exact : m.Exact) (room : 2 ≤ m.left) : Told granted m.asked (put granted round m) fun x => 1 ≤ x.left := by
  have recorded := exact.recorded
  have remaining := exact.remaining
  unfold put
  by_cases one : round.advance = 1
  · rw [if_pos one]
    have length := single one
    apply Told.step (m := putChar round.copied m)
    · refine ⟨recorded, ?_, ?_⟩
      · simp only [putChar, List.length_append]
        omega
      · simp only [putChar]
        omega
    · simp only [putChar]
      omega
  · rw [if_neg one]
    apply (makeRoom_told round.copied.length exact).andThen
    intro x exact enough
    obtain ⟨recorded, remaining, -⟩ := exact
    apply Told.step (m := copyText round.copied x)
    · refine ⟨recorded, ?_, ?_⟩
      · simp only [copyText, List.length_append]
        omega
      · simp only [copyText]
        omega
    · simp only [copyText]
      omega

variable {σ : Type} {w : World σ} {g : Globals}

theorem expandRound_single {scanp : Bytes} {state : σ} {round : ExpandRound σ}
    (ran : expandRound w g scanp state = .ok (some round)) (one : round.advance = 1) :
    round.copied.length = 1 := by
  unfold expandRound at ran
  split at ran
  · cases ran
  · rename_i c rest
    split at ran
    · obtain rfl := Option.some.inj (Except.ok.inj ran)
      rfl
    · split at ran
      · obtain rfl := Option.some.inj (Except.ok.inj ran)
        rfl
      · split at ran
        · obtain rfl := Option.some.inj (Except.ok.inj ran)
          rfl
        · split at ran
          · obtain rfl := Option.some.inj (Except.ok.inj ran)
            cases one
          · split at ran
            · cases ran
            · simp only at ran
              split at ran
              · cases ran
              · rename_i dollar _ _ _ _ _
                -- the `)` that ends the reference is not the `$` that starts it
                obtain rfl := Option.some.inj (Except.ok.inj ran)
                have start : c = ch '$' := not_not.mp dollar
                have other : ¬ ch '$' = ch ')' := by decide
                simp [start, other] at one

theorem bufferLoop_told (scanp : Bytes) (state : σ) (exact : m.Exact) :
    Told granted m.asked (bufferLoop granted w g scanp state m) fun _ => True := by
  induction bound : scanp.length using Nat.strong_induction_on generalizing scanp state m with
  | _ n ih =>
    rw [bufferLoop]
    have room : Told granted m.asked (if m.left ≤ 1 then growth granted m else .still m) fun x => 2 ≤ x.left := by
      by_cases short : m.left ≤ 1
      · rw [if_pos short]
        exact growth_told exact
      · rw [if_neg short]
        exact .still exact (by omega)
    apply room.andThen
    intro m exact enough
    split
    · exact .stop exact
    · exact .stop exact
    · rename_i round ran
      apply (put_told (expandRound_single ran) exact enough).andThen
      intro m exact last
      obtain ⟨some, length, forward⟩ := expandRound_advance w g ran
      split
      · exact .stop exact
      · split
        · apply Told.stop (m := terminated m)
          have remaining := exact.remaining
          have recorded := exact.recorded
          refine ⟨recorded, remaining, ?_⟩
          simp only [terminated]
          omega
        · apply ih _ _ _ _ exact rfl
          rw [List.length_drop]
          omega

theorem andThen_asked_le {before : Nat} {p : Passage} {next : Moment → Passage} (first : before ≤ p.now.asked)
    (rest : ∀ m, m.asked ≤ (next m).now.asked) : before ≤ (p.andThen next).now.asked := by
  unfold Passage.andThen
  split
  · exact first
  · exact first.trans (rest p.now)

theorem growth_asked_le (m : Moment) : m.asked ≤ (growth granted m).now.asked := by
  unfold growth
  split
  · exact Nat.le_succ _
  · exact Nat.le_succ _

theorem makeRoom_asked_le (len : Nat) (m : Moment) : m.asked ≤ (makeRoom granted len m).now.asked := by
  fun_induction makeRoom granted len m with
  | case1 m short answer ih => exact (Nat.le_succ _).trans ih
  | case2 m short answer => exact Nat.le_succ _
  | case3 m enough => exact le_refl _

theorem put_asked_le (round : ExpandRound σ) (m : Moment) : m.asked ≤ (put granted round m).now.asked := by
  unfold put
  split
  · exact le_refl _
  · apply andThen_asked_le (makeRoom_asked_le _ m)
    intro m
    exact le_refl _

theorem bufferLoop_asked_le (scanp : Bytes) (state : σ) (m : Moment) :
    m.asked ≤ (bufferLoop granted w g scanp state m).now.asked := by
  induction bound : scanp.length using Nat.strong_induction_on generalizing scanp state m with
  | _ n ih =>
    rw [bufferLoop]
    apply andThen_asked_le
    · split
      · exact growth_asked_le m
      · exact le_refl _
    intro m
    split
    · exact le_refl _
    · exact le_refl _
    · rename_i round ran
      apply andThen_asked_le (put_asked_le round m)
      intro m
      obtain ⟨some, length, forward⟩ := expandRound_advance w g ran
      split
      · exact le_refl _
      · split
        · exact le_refl _
        · apply ih _ _ _ _ _ rfl
          rw [List.length_drop]
          omega

end Loop

section Refinement

variable {granted : Nat → Bool} {σ : Type} {w : World σ} {g : Globals}

theorem andThen_going {p : Passage} (going : p.ending = none) (next : Moment → Passage) :
    p.andThen next = ⟨p.moments ++ (next p.now).moments, (next p.now).now, (next p.now).ending⟩ := by
  rw [Passage.andThen, going]
  rfl

theorem growth_granted (always : ∀ n, granted n = true) (m : Moment) :
    (growth granted m).ending = none ∧ (growth granted m).now.text = m.text := by
  rw [growth, if_pos (always m.asked)]
  exact ⟨rfl, rfl⟩

theorem makeRoom_granted (always : ∀ n, granted n = true) (len : Nat) (m : Moment) :
    (makeRoom granted len m).ending = none ∧ (makeRoom granted len m).now.text = m.text := by
  fun_induction makeRoom granted len m with
  | case1 m short answer ih => exact ih
  | case2 m short answer => exact absurd (always m.asked) answer
  | case3 m enough => exact ⟨rfl, rfl⟩

theorem put_granted (always : ∀ n, granted n = true) (round : ExpandRound σ) (m : Moment) :
    (put granted round m).ending = none ∧ (put granted round m).now.text = m.text ++ round.copied := by
  unfold put
  by_cases one : round.advance = 1
  · rw [if_pos one]
    exact ⟨rfl, rfl⟩
  · rw [if_neg one]
    obtain ⟨going, same⟩ := makeRoom_granted always round.copied.length m
    rw [andThen_going going, ← same]
    exact ⟨rfl, rfl⟩

/-- Given its memory, the buffer holds what the expansion makes of the string. -/
theorem bufferLoop_expandLoop (always : ∀ n, granted n = true) (seen scanp : Bytes) (state : σ) (m : Moment) :
    (bufferLoop granted w g scanp state m).ending =
        some ((expandLoop w g seen scanp m.text state).map Expansion.status) ∧
      ∀ e, expandLoop w g seen scanp m.text state = .ok e →
        (bufferLoop granted w g scanp state m).now.text = e.exeString := by
  induction bound : scanp.length using Nat.strong_induction_on generalizing seen scanp state m with
  | _ n ih =>
    have room : (if m.left ≤ 1 then growth granted m else Passage.still m).ending = none ∧
        (if m.left ≤ 1 then growth granted m else Passage.still m).now.text = m.text := by
      split
      · exact growth_granted always m
      · exact ⟨rfl, rfl⟩
    obtain ⟨going, same⟩ := room
    rw [bufferLoop, andThen_going going, ← same]
    generalize (if m.left ≤ 1 then growth granted m else Passage.still m).now = m
    simp only
    split
    · rename_i abort failed
      have looped : expandLoop w g seen scanp m.text state = .error abort := by
        rw [expandLoop]
        split
        all_goals simp_all
      rw [looped]
      exact ⟨rfl, fun e ended => nomatch ended⟩
    · rename_i unclosed
      have looped : expandLoop w g seen scanp m.text state = .ok ⟨-1, m.text, seen ++ scanp, state⟩ := by
        rw [expandLoop]
        split
        all_goals simp_all
      rw [looped]
      refine ⟨rfl, ?_⟩
      intro e ended
      obtain rfl := Except.ok.inj ended
      rfl
    · rename_i round ran
      obtain ⟨some, length, forward⟩ := expandRound_advance w g ran
      obtain ⟨going, text⟩ := put_granted always round m
      rw [expandLoop_some ran, andThen_going going, ← text]
      generalize (put granted round m).now = m
      cases rest : round.scanned.drop round.advance with
      | nil => exact ⟨rfl, fun e ended => nomatch ended⟩
      | cons next after =>
        by_cases last : next = 0
        · simp only [if_pos last]
          refine ⟨rfl, ?_⟩
          intro e ended
          obtain rfl := Except.ok.inj ended
          rfl
        · simp only [if_neg last]
          rw [← rest]
          apply ih _ _ _ _ _ _ rfl
          rw [List.length_drop]
          omega

theorem expandInto_expandString (always : ∀ n, granted n = true) (call : ExpandCall σ) (buffer : ExeBuffer) :
    (expandInto granted call buffer).ending =
        some ((expandString call.world call.globals call.stringp call.state).map Expansion.status) ∧
      ∀ e, expandString call.world call.globals call.stringp call.state = .ok e →
        (expandInto granted call buffer).now.text = e.exeString :=
  bufferLoop_expandLoop always [] _ _ _

end Refinement

section Calls

variable {σ : Type} (granted : Nat → Bool)

theorem expandInto_told (call : ExpandCall σ) {buffer : ExeBuffer} (exact : buffer.exeStringLen = buffer.allocation) :
    Told granted buffer.asked (expandInto granted call buffer) fun _ => True := by
  have start : Moment.Exact { buffer with left := buffer.exeStringLen, text := [], reach := 0 } :=
    ⟨exact, rfl, Nat.zero_le _⟩
  unfold expandInto
  apply (bufferLoop_told _ _ start).behind start.sound (le_refl _)
  intro n low high
  exact absurd high (not_lt.mpr low)

theorem expandCalls_asked_le (calls : List (ExpandCall σ)) (buffer : ExeBuffer) :
    buffer.asked ≤ (expandCalls granted calls buffer).2.asked := by
  induction calls generalizing buffer with
  | nil => exact le_refl _
  | cons call calls ih =>
    have first : buffer.asked ≤ (expandInto granted call buffer).now.asked := bufferLoop_asked_le _ _ { buffer with left := buffer.exeStringLen, text := [], reach := 0 }
    rw [expandCalls]
    split
    · exact first.trans (ih _)
    · exact first
    · exact first

theorem expandCalls_told (calls : List (ExpandCall σ)) {buffer : ExeBuffer}
    (exact : buffer.exeStringLen = buffer.allocation) :
    ((∀ n, buffer.asked ≤ n → n < (expandCalls granted calls buffer).2.asked → granted n = true) ∧
      ∀ m ∈ (expandCalls granted calls buffer).1, m.Sound) ∨
    (∃ n, n < (expandCalls granted calls buffer).2.asked ∧ granted n = false) ∧
      ∃ m ∈ (expandCalls granted calls buffer).1, ¬ m.Sound := by
  induction calls generalizing buffer with
  | nil =>
    left
    constructor
    · intro n low high
      exact absurd high (not_lt.mpr low)
    · intro m member
      cases member
  | cons call calls ih =>
    rw [expandCalls]
    cases expandInto_told granted call exact with
    | given low given sound exact' post =>
      split
      · simp only
        rcases ih exact'.recorded with ⟨given', sound'⟩ | ⟨⟨n, high, refusal⟩, ⟨m, member, unsound⟩⟩
        · left
          constructor
          · intro n from' to'
            by_cases early : n < (expandInto granted call buffer).now.asked
            · exact given n from' early
            · exact given' n (not_lt.mp early) to'
          · intro m member
            rcases List.mem_append.mp member with member | member
            · exact sound m member
            · exact sound' m member
        · right
          exact ⟨⟨n, high, refusal⟩, ⟨m, List.mem_append_right _ member, unsound⟩⟩
      · exact .inl ⟨given, sound⟩
      · exact .inl ⟨given, sound⟩
    | failed n low high refusal unsound ended =>
      obtain ⟨m, member, unsound⟩ := unsound
      have later := expandCalls_asked_le granted calls (expandInto granted call buffer).now.toExeBuffer
      right
      simp only [ended]
      exact ⟨⟨n, lt_of_lt_of_le high later, refusal⟩, ⟨m, List.mem_append_left _ member, unsound⟩⟩

/-- The buffer is sound at every moment of a run exactly when every reallocation of the run succeeds. -/
theorem expandCalls_sound_iff (calls : List (ExpandCall σ)) :
    (∀ m ∈ (expandCalls granted calls {}).1, m.Sound) ↔
      ∀ n < (expandCalls granted calls {}).2.asked, granted n = true := by
  have start : ({} : ExeBuffer).exeStringLen = ({} : ExeBuffer).allocation := rfl
  rcases expandCalls_told granted calls start with
    ⟨given, sound⟩ | ⟨⟨n, high, refusal⟩, ⟨m, member, unsound⟩⟩
  · constructor
    · intro _ n high
      exact given n (Nat.zero_le n) high
    · intro _
      exact sound
  · constructor
    · intro sound
      exact absurd (sound m member) unsound
    · intro given
      rw [given n high] at refusal
      cases refusal

def silentWorld : World Unit where
  cstoreGetVarRef _ _ _ := (⟨none, false⟩, ())
  cstoreSetVarRef _ _ _ := (false, ())
  popen _ _ := (none, ())
  systemOut _ _ := (0, ())
  outputUser _ _ := ()
  regcomp _ := none

/-- With the first reallocation refused, `exe_string_len` is 512 and `exe_string` is NULL. -/
theorem expandCalls_unsound :
    ¬ ∀ (granted : Nat → Bool) (calls : List (ExpandCall Unit)),
      ∀ m ∈ (expandCalls granted calls {}).1, m.Sound := by
  intro always
  let call : ExpandCall Unit := ⟨silentWorld, ⟨false, [], false, false, .zero⟩, (), str "a"⟩
  have left : (⟨0, 512, 1⟩ : ExeBuffer) ∈ (expandCalls (fun _ => false) [call] {}).1.map Moment.toExeBuffer := by
    simp [expandCalls, expandInto, bufferLoop, growth, Passage.andThen, Passage.behind, Passage.stop, refused,
      exeStringDelta]
  obtain ⟨m, member, same⟩ := List.mem_map.mp left
  have recorded := (always (fun _ => false) [call] m member).recorded
  have length := congrArg ExeBuffer.exeStringLen same
  have allocation := congrArg ExeBuffer.allocation same
  simp only at length allocation
  omega

end Calls

end VyattaCfg.Cliexec
