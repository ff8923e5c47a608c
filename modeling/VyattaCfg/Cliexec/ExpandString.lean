import VyattaCfg.Cliexec.World

namespace VyattaCfg.Cliexec

open ByteString VyattaCfg.Client

structure Expansion (σ : Type) where
  status : Int
  exeString : Bytes
  buffer : Bytes
  state : σ

/-- What one round of the loop makes of the buffer from `scanp` on, how far it goes and what it
    copies. -/
structure ExpandRound (σ : Type) where
  scanned : Bytes
  advance : Nat
  copied : Bytes
  state : σ

section Expand

variable {σ : Type} (w : World σ) (g : Globals)

/-- The text that replaces a path reference. -/
def refText (state : σ) (ref : Bytes) : Bytes × σ :=
  let (got, state) := refLookup w g state ref
  (((got.bind VarRefResult.value).map VarRefValue.val).getD [], state)

/-- The body of the loop. The inner `none` is its `return -1`. -/
def expandRound (scanp : Bytes) (state : σ) : Except Abort (Option (ExpandRound σ)) :=
  match scanp with
  | [] => .error .overrun
  | c :: _ =>
    if c ≠ ch '$' then .ok (some ⟨scanp, 1, [c], state⟩)
    -- shorter than "$VAR(@)"
    else if (cstr scanp).length < 7 then .ok (some ⟨scanp, 1, [c], state⟩)
    else if ¬ varRefMarker <+: scanp then .ok (some ⟨scanp, 1, [c], state⟩)
    else if scanp[5]? = some (ch '@') ∧ scanp[6]? = some (ch ')') then .ok (some ⟨scanp, 7, g.atString, state⟩)
    else if ch ')' ∉ cstr scanp then .ok none
    else
      let endp := scanp.idxOf (ch ')')
      let cut := scanp.set endp 0
      if endp = 5 then .error .emptyPath
      else
        let cp := refText w g state (cstr (cut.drop 5))
        let restored := cut.set endp (ch ')')
        .ok (some ⟨restored, restored.idxOf (ch ')') + 1, cp.1, cp.2⟩)

theorem expandRound_advance {scanp : Bytes} {state : σ} {round : ExpandRound σ}
    (ran : expandRound w g scanp state = .ok (some round)) :
    0 < scanp.length ∧ round.scanned.length = scanp.length ∧ 0 < round.advance := by
  unfold expandRound at ran
  split at ran
  · cases ran
  · have copied : ∀ (advance : Nat) (text : Bytes) (scanp : Bytes), 0 < scanp.length → 0 < advance →
        (.ok (some ⟨scanp, advance, text, state⟩) : Except Abort (Option (ExpandRound σ))) = .ok (some round) →
        0 < scanp.length ∧ round.scanned.length = scanp.length ∧ 0 < round.advance := by
      intro advance text scanp some forward same
      obtain rfl := Option.some.inj (Except.ok.inj same)
      exact ⟨some, rfl, forward⟩
    split at ran
    · exact copied _ _ _ (by simp) (by decide) ran
    · split at ran
      · exact copied _ _ _ (by simp) (by decide) ran
      · split at ran
        · exact copied _ _ _ (by simp) (by decide) ran
        · split at ran
          · exact copied _ _ _ (by simp) (by decide) ran
          · split at ran
            · cases ran
            · simp only at ran
              split at ran
              · cases ran
              · obtain rfl := Option.some.inj (Except.ok.inj ran)
                simp

def expandLoop (seen scanp exeString : Bytes) (state : σ) : Except Abort (Expansion σ) :=
  match _ : expandRound w g scanp state with
  | .error abort => .error abort
  | .ok none => .ok ⟨-1, exeString, seen ++ scanp, state⟩
  | .ok (some round) =>
    match round.scanned.drop round.advance with
    | [] => .error .overrun
    | next :: _ =>
      if next = 0 then .ok ⟨0, exeString ++ round.copied, seen ++ round.scanned, round.state⟩
      else
        expandLoop (seen ++ round.scanned.take round.advance) (round.scanned.drop round.advance)
          (exeString ++ round.copied) round.state
termination_by scanp.length
decreasing_by
  have moved := expandRound_advance w g (by assumption)
  rw [List.length_drop]
  omega

def expandString (s : Bytes) (state : σ) : Except Abort (Expansion σ) := expandLoop w g [] (s ++ [0]) [] state

/-- The string with its references replaced from left to right. -/
inductive Expands : Bytes → σ → Bytes → σ → Prop where
  | nil (state : σ) : Expands [] state [] state
  | copy {c : UInt8} {s out : Bytes} {state after : σ} :
    ¬ varRefMarker <+: c :: s → Expands s state out after → Expands (c :: s) state (c :: out) after
  | self {s out : Bytes} {state after : σ} :
    Expands s state out after → Expands (str "$VAR(@)" ++ s) state (g.atString ++ out) after
  | ref {r s out : Bytes} {state after : σ} : r ≠ [] → ch ')' ∉ r → r ≠ str "@" →
    Expands s (refText w g state r).2 out after →
    Expands (varRefMarker ++ (r ++ ch ')' :: s)) state ((refText w g state r).1 ++ out) after

/-- Every `$VAR(` is followed by a reference that is not empty and a `)`. -/
def ReferencesClosed (s : Bytes) : Prop :=
  ∀ before after, s = before ++ varRefMarker ++ after →
    ∃ r rest, after = r ++ ch ')' :: rest ∧ r ≠ [] ∧ ch ')' ∉ r

variable {w g}

theorem ReferencesClosed.drop {s : Bytes} (closed : ReferencesClosed s) (n : Nat) :
    ReferencesClosed (s.drop n) := by
  intro before after split
  apply closed (s.take n ++ before) after
  rw [List.append_assoc, List.append_assoc, ← List.append_assoc before, ← split, List.take_append_drop]

theorem marker_prefix_terminated {s : Bytes} (shared : varRefMarker <+: s ++ [0]) : varRefMarker <+: s := by
  rcases List.prefix_concat_iff.mp shared with whole | inside
  · have last := congrArg List.getLast? whole
    simp [varRefMarker, str] at last
    exact absurd last (by decide)
  · exact inside

theorem expandRound_copy {c : UInt8} {s : Bytes} (plain : ¬ varRefMarker <+: c :: s) (state : σ) :
    expandRound w g (c :: s ++ [0]) state = .ok (some ⟨c :: s ++ [0], 1, [c], state⟩) := by
  have noMarker : ¬ varRefMarker <+: c :: s ++ [0] := fun shared => plain (marker_prefix_terminated shared)
  rw [List.cons_append] at noMarker ⊢
  simp only [expandRound, if_pos noMarker, ite_self]

theorem marker_free : 0 ∉ varRefMarker := by decide

theorem marker_cons (s : Bytes) : varRefMarker ++ s = ch '$' :: (str "VAR(" ++ s) := rfl

theorem marked_long {r : Bytes} (free : 0 ∉ r) (filled : r ≠ []) (after : Bytes) :
    7 ≤ (cstr (varRefMarker ++ (r ++ (ch ')' :: after)))).length ∧
      ch ')' ∈ cstr (varRefMarker ++ (r ++ (ch ')' :: after))) := by
  have kept : cstr (ch ')' :: after) = ch ')' :: cstr after := cstr_append (s := [ch ')']) (by decide) after
  have length : 0 < r.length := List.length_pos_iff.mpr filled
  have marker : varRefMarker.length = 5 := rfl
  rw [cstr_append marker_free, cstr_append free, kept]
  simp
  omega

theorem expandRound_self (s : Bytes) (state : σ) :
    expandRound w g (str "$VAR(@)" ++ s) state = .ok (some ⟨str "$VAR(@)" ++ s, 7, g.atString, state⟩) := by
  have buffer : str "$VAR(@)" ++ s = varRefMarker ++ (str "@" ++ (ch ')' :: s)) := rfl
  have long := (marked_long (r := str "@") (by decide) (by decide) s).1
  have marked : varRefMarker <+: varRefMarker ++ (str "@" ++ (ch ')' :: s)) := List.prefix_append _ _
  rw [buffer]
  rw [marker_cons] at long marked ⊢
  simp only [expandRound]
  rw [if_neg (by simp), if_neg (by omega), if_neg (not_not.mpr marked)]
  rfl

theorem idxOf_paren {r : Bytes} (closed : ch ')' ∉ r) (after : Bytes) :
    (varRefMarker ++ (r ++ ch ')' :: after)).idxOf (ch ')') = 5 + r.length := by
  have outside : ch ')' ∉ varRefMarker := by decide
  rw [List.idxOf_append_of_notMem outside, List.idxOf_append_of_notMem closed, List.idxOf_cons_self]
  rfl

theorem set_paren (r : Bytes) (c d : UInt8) (after : Bytes) :
    (varRefMarker ++ (r ++ c :: after)).set (5 + r.length) d = varRefMarker ++ (r ++ d :: after) := by
  have marker : varRefMarker.length = 5 := rfl
  rw [List.set_append_right _ _ (by omega), marker, Nat.add_sub_cancel_left, List.set_append_right _ _ (le_refl _),
    Nat.sub_self, List.set_cons_zero]

theorem expandRound_ref {r : Bytes} (free : 0 ∉ r) (filled : r ≠ []) (closed : ch ')' ∉ r) (path : r ≠ str "@")
    (after : Bytes) (state : σ) :
    expandRound w g (varRefMarker ++ (r ++ ch ')' :: after)) state =
      .ok (some ⟨varRefMarker ++ (r ++ ch ')' :: after), 6 + r.length, (refText w g state r).1,
        (refText w g state r).2⟩) := by
  have long := marked_long free filled after
  have marked : varRefMarker <+: varRefMarker ++ (r ++ ch ')' :: after) := List.prefix_append _ _
  have notSelf : ¬ ((varRefMarker ++ (r ++ ch ')' :: after))[5]? = some (ch '@') ∧
      (varRefMarker ++ (r ++ ch ')' :: after))[6]? = some (ch ')')) := by
    intro self
    obtain ⟨c, rest, rfl⟩ := List.exists_cons_of_ne_nil filled
    have first : c = ch '@' := by simpa [varRefMarker, str] using self.1
    cases rest with
    | nil => exact path (by rw [first]; rfl)
    | cons d rest =>
      have second : d = ch ')' := by simpa [varRefMarker, str] using self.2
      exact closed (by simp [second])
  have length : 0 < r.length := List.length_pos_iff.mpr filled
  have index := idxOf_paren closed after
  have cut := set_paren r (ch ')') 0 after
  have restored := set_paren r 0 (ch ')') after
  have reference : cstr ((varRefMarker ++ (r ++ 0 :: after)).drop 5) = r := by
    have dropped : (varRefMarker ++ (r ++ 0 :: after)).drop 5 = r ++ 0 :: after := rfl
    rw [dropped, cstr_append free]
    simp [cstr]
  have dollar : ¬ ch '$' ≠ ch '$' := not_not.mpr rfl
  rw [marker_cons] at long marked notSelf index cut ⊢
  simp only [expandRound]
  rw [if_neg dollar, if_neg (by omega), if_neg (not_not.mpr marked), if_neg notSelf, if_neg (not_not.mpr long.2),
    index, if_neg (by omega), cut, restored, reference, ← marker_cons, idxOf_paren closed after]
  simp only [Except.ok.injEq, Option.some.injEq, ExpandRound.mk.injEq, true_and, and_true]
  omega

theorem ReferencesClosed.starts {s : Bytes} (nonempty : s ≠ []) (closed : ReferencesClosed s) :
    (∃ c rest, s = c :: rest ∧ ¬ varRefMarker <+: c :: rest) ∨ (∃ rest, s = str "$VAR(@)" ++ rest) ∨
      ∃ r rest, s = varRefMarker ++ (r ++ ch ')' :: rest) ∧ r ≠ [] ∧ ch ')' ∉ r ∧ r ≠ str "@" := by
  by_cases marked : varRefMarker <+: s
  · obtain ⟨after, rfl⟩ := marked
    obtain ⟨r, rest, rfl, filled, plain⟩ := closed [] after rfl
    by_cases self : r = str "@"
    · exact .inr (.inl ⟨rest, by rw [self]; rfl⟩)
    · exact .inr (.inr ⟨r, rest, rfl, filled, plain, self⟩)
  · obtain ⟨c, rest, rfl⟩ := List.exists_cons_of_ne_nil nonempty
    exact .inl ⟨c, rest, rfl, marked⟩

theorem expandLoop_some {scanp : Bytes} {state : σ} {round : ExpandRound σ}
    (ran : expandRound w g scanp state = .ok (some round)) (seen exeString : Bytes) :
    expandLoop w g seen scanp exeString state =
      match round.scanned.drop round.advance with
      | [] => .error .overrun
      | next :: _ =>
        if next = 0 then .ok ⟨0, exeString ++ round.copied, seen ++ round.scanned, round.state⟩
        else
          expandLoop w g (seen ++ round.scanned.take round.advance) (round.scanned.drop round.advance)
            (exeString ++ round.copied) round.state := by
  rw [expandLoop]
  split
  · rename_i failed
    rw [ran] at failed
    cases failed
  · rename_i failed
    rw [ran] at failed
    cases failed
  · rename_i other again
    rw [ran] at again
    obtain rfl := Option.some.inj (Except.ok.inj again)
    rfl

/-- A round that leaves the buffer as it was ends the loop or leaves it to the rest. -/
theorem expandLoop_round {piece rest : Bytes} (free : 0 ∉ rest) {text : Bytes} {state after : σ}
    (ran : expandRound w g (piece ++ (rest ++ [0])) state =
      .ok (some ⟨piece ++ (rest ++ [0]), piece.length, text, after⟩)) (seen exeString : Bytes) :
    expandLoop w g seen (piece ++ (rest ++ [0])) exeString state =
      if rest = [] then .ok ⟨0, exeString ++ text, seen ++ (piece ++ (rest ++ [0])), after⟩
      else expandLoop w g (seen ++ piece) (rest ++ [0]) (exeString ++ text) after := by
  rw [expandLoop_some ran]
  simp only [List.drop_left, List.take_left]
  cases rest with
  | nil => simp
  | cons next rest =>
    have more : next ≠ 0 := fun nul => free (by simp [nul])
    simp [more]

theorem expandLoop_expands {s : Bytes} (nonempty : s ≠ []) (free : 0 ∉ s) (closed : ReferencesClosed s)
    (seen exeString : Bytes) (state : σ) :
    ∃ out after, Expands w g s state out after ∧
      expandLoop w g seen (s ++ [0]) exeString state = .ok ⟨0, exeString ++ out, seen ++ (s ++ [0]), after⟩ := by
  induction bound : s.length using Nat.strong_induction_on generalizing s seen exeString state with
  | _ n ih =>
    have finish : ∀ (piece rest text : Bytes) (next : σ), s = piece ++ rest → piece ≠ [] →
        expandRound w g (piece ++ (rest ++ [0])) state =
          .ok (some ⟨piece ++ (rest ++ [0]), piece.length, text, next⟩) →
        ∃ out after, Expands w g rest next out after ∧
          expandLoop w g seen (s ++ [0]) exeString state =
            .ok ⟨0, exeString ++ (text ++ out), seen ++ (s ++ [0]), after⟩ := by
      intro piece rest text next split filled ran
      have freeRest : 0 ∉ rest := fun nul => free (by simp [split, nul])
      have closedRest : ReferencesClosed rest := by
        have dropped := closed.drop piece.length
        rwa [split, List.drop_left] at dropped
      have looped := expandLoop_round freeRest ran seen exeString
      rw [← List.append_assoc, ← split] at looped
      by_cases last : rest = []
      · rw [if_pos last] at looped
        refine ⟨[], next, ?_, ?_⟩
        · rw [last]
          exact .nil next
        · rw [looped, List.append_nil]
      · have shorter : rest.length < n := by
          have length := List.length_pos_iff.mpr filled
          rw [← bound, split, List.length_append]
          omega
        obtain ⟨out, after, expands, ended⟩ :=
          ih rest.length shorter last freeRest closedRest (seen ++ piece) (exeString ++ text) next rfl
        refine ⟨out, after, expands, ?_⟩
        rw [looped, if_neg last, ended, split]
        simp
    rcases closed.starts nonempty with ⟨c, rest, start, plain⟩ | ⟨rest, start⟩ | ⟨r, rest, start, filled, paren, path⟩
    · obtain ⟨out, after, expands, ended⟩ :=
        finish [c] rest [c] state start (List.cons_ne_nil c []) (expandRound_copy plain state)
      refine ⟨c :: out, after, ?_, ended⟩
      rw [start]
      exact .copy plain expands
    · obtain ⟨out, after, expands, ended⟩ :=
        finish (str "$VAR(@)") rest g.atString state start (by decide) (expandRound_self _ state)
      refine ⟨g.atString ++ out, after, ?_, ended⟩
      rw [start]
      exact .self expands
    · have freeRef : 0 ∉ r := fun nul => free (by simp [start, nul])
      have piece : varRefMarker ++ (r ++ ch ')' :: rest) = (varRefMarker ++ (r ++ [ch ')'])) ++ rest := by simp
      have ran := expandRound_ref (w := w) (g := g) freeRef filled paren path (rest ++ [0]) state
      have buffer : varRefMarker ++ (r ++ ch ')' :: (rest ++ [0])) =
          (varRefMarker ++ (r ++ [ch ')'])) ++ (rest ++ [0]) := by simp
      have length : 6 + r.length = (varRefMarker ++ (r ++ [ch ')'])).length := by
        have marker : varRefMarker.length = 5 := rfl
        rw [List.length_append, List.length_append, List.length_singleton, marker]
        omega
      rw [buffer, length] at ran
      obtain ⟨out, after, expands, ended⟩ :=
        finish (varRefMarker ++ (r ++ [ch ')'])) rest _ _ (start.trans piece) (by simp [varRefMarker, str]) ran
      refine ⟨_, after, ?_, ended⟩
      rw [start]
      exact .ref filled paren path expands

/-- How a round on a string that is not empty ends: with an empty path, with `-1`, or behind a
    piece of the string. -/
theorem expandRound_ends {s : Bytes} (nonempty : s ≠ []) (free : 0 ∉ s) (state : σ) :
    expandRound w g (s ++ [0]) state = .error .emptyPath ∨ expandRound w g (s ++ [0]) state = .ok none ∨
      ∃ piece rest text after, s = piece ++ rest ∧ piece ≠ [] ∧
        expandRound w g (s ++ [0]) state =
          .ok (some ⟨piece ++ (rest ++ [0]), piece.length, text, after⟩) := by
  obtain ⟨c, t, rfl⟩ := List.exists_cons_of_ne_nil nonempty
  have buffer : cstr (c :: t ++ [0]) = c :: t := by
    rw [cstr_append free]
    simp [cstr]
  have cut (n : Nat) (positive : 0 < n) (inside : n ≤ (c :: t).length) (text : Bytes) (after : σ) :
      ∃ piece rest text' after', c :: t = piece ++ rest ∧ piece ≠ [] ∧
        (.ok (some ⟨c :: t ++ [0], n, text, after⟩) : Except Abort (Option (ExpandRound σ))) =
          .ok (some ⟨piece ++ (rest ++ [0]), piece.length, text', after'⟩) := by
    have length : ((c :: t).take n).length = n := by
      rw [List.length_take]
      omega
    refine ⟨(c :: t).take n, (c :: t).drop n, text, after, (List.take_append_drop n _).symm, ?_, ?_⟩
    · exact List.ne_nil_of_length_pos (by omega)
    · rw [← List.append_assoc, List.take_append_drop, length]
  have one : 1 ≤ (c :: t).length := by simp
  unfold expandRound
  rw [List.cons_append] at buffer cut ⊢
  simp only [buffer]
  split
  · exact .inr (.inr (cut 1 Nat.one_pos one _ _))
  · split
    · exact .inr (.inr (cut 1 Nat.one_pos one _ _))
    · rename_i long
      split
      · exact .inr (.inr (cut 1 Nat.one_pos one _ _))
      · split
        · exact .inr (.inr (cut 7 (by decide) (by omega) _ _))
        · split
          · exact .inr (.inl rfl)
          · rename_i closed
            have paren : ch ')' ∈ c :: t := not_not.mp closed
            have index : (c :: (t ++ [0])).idxOf (ch ')') < (c :: t).length := by
              rw [← List.cons_append, List.idxOf_append_of_mem paren]
              exact List.idxOf_lt_length_of_mem paren
            have within : (c :: (t ++ [0])).idxOf (ch ')') < (c :: (t ++ [0])).length := by
              simp only [List.length_cons, List.length_append] at index ⊢
              omega
            have restored : ((c :: (t ++ [0])).set ((c :: (t ++ [0])).idxOf (ch ')')) 0).set
                ((c :: (t ++ [0])).idxOf (ch ')')) (ch ')') = c :: (t ++ [0]) := by
              have same := List.set_getElem_self within
              rwa [List.getElem_idxOf within, ← List.set_set 0] at same
            split
            · exact .inl rfl
            · rw [restored]
              exact .inr (.inr (cut _ (Nat.succ_pos _) index _ _))

theorem expandLoop_error {scanp : Bytes} {state : σ} {abort : Abort}
    (ran : expandRound w g scanp state = .error abort) (seen exeString : Bytes) :
    expandLoop w g seen scanp exeString state = .error abort := by
  rw [expandLoop]
  split
  · rename_i again
    rw [ran] at again
    rw [Except.error.inj again]
  · rename_i again
    rw [ran] at again
    cases again
  · rename_i again
    rw [ran] at again
    cases again

theorem expandLoop_none {scanp : Bytes} {state : σ} (ran : expandRound w g scanp state = .ok none)
    (seen exeString : Bytes) :
    expandLoop w g seen scanp exeString state = .ok ⟨-1, exeString, seen ++ scanp, state⟩ := by
  rw [expandLoop]
  split
  · rename_i again
    rw [ran] at again
    cases again
  · rfl
  · rename_i again
    rw [ran] at again
    cases again

theorem expandLoop_aborts {s : Bytes} (nonempty : s ≠ []) (free : 0 ∉ s) {seen exeString : Bytes} {state : σ}
    {abort : Abort} (aborted : expandLoop w g seen (s ++ [0]) exeString state = .error abort) :
    abort = .emptyPath := by
  induction bound : s.length using Nat.strong_induction_on generalizing s seen exeString state with
  | _ n ih =>
    rcases expandRound_ends (w := w) (g := g) nonempty free state with
      empty | unclosed | ⟨piece, rest, text, after, split, filled, ran⟩
    · rw [expandLoop_error empty] at aborted
      exact (Except.error.inj aborted).symm
    · rw [expandLoop_none unclosed] at aborted
      cases aborted
    · have freeRest : 0 ∉ rest := fun nul => free (by simp [split, nul])
      rw [split, List.append_assoc] at ran
      have looped := expandLoop_round freeRest ran seen exeString
      rw [split, List.append_assoc, looped] at aborted
      split at aborted
      · cases aborted
      · rename_i more
        have shorter : rest.length < n := by
          have length := List.length_pos_iff.mpr filled
          rw [← bound, split, List.length_append]
          omega
        exact ih rest.length shorter more freeRest aborted rfl

theorem expandString_aborts {s : Bytes} (nonempty : s ≠ []) (free : 0 ∉ s) {state : σ} {abort : Abort}
    (aborted : expandString w g s state = .error abort) : abort = .emptyPath :=
  expandLoop_aborts nonempty free aborted

end Expand

/-- What `expand_string` is for: it leaves the text as it is and its expansion in `exe_string`. -/
def ExpandsTo {σ : Type} (w : World σ) (g : Globals) (s : Bytes) (state : σ) : Prop :=
  ∃ out after, Expands w g s state out after ∧ expandString w g s state = .ok ⟨0, out, s ++ [0], after⟩

theorem expandString_nil {σ : Type} (w : World σ) (g : Globals) (state : σ) :
    expandString w g [] state = .error .overrun := by
  have copied : expandRound w g ([] ++ [0]) state = .ok (some ⟨[0], 1, [0], state⟩) := rfl
  rw [expandString, expandLoop_some copied]
  rfl

theorem expands_to_iff {σ : Type} (w : World σ) (g : Globals) (s : Bytes) (state : σ) (free : 0 ∉ s)
    (closed : ReferencesClosed s) : ExpandsTo w g s state ↔ s ≠ [] := by
  constructor
  · intro expands empty
    obtain ⟨out, after, -, ended⟩ := expands
    rw [empty, expandString_nil] at ended
    cases ended
  · intro nonempty
    exact expandLoop_expands nonempty free closed [] [] state

def quietWorld : World Unit where
  cstoreGetVarRef _ _ _ := (⟨some ⟨.text, str "eth0"⟩, false⟩, ())
  cstoreSetVarRef _ _ _ := (false, ())
  popen _ _ := (none, ())
  systemOut _ _ := (0, ())
  outputUser _ _ := ()
  regcomp _ := none

def quietGlobals : Globals := ⟨true, str "7", false, false, .zero⟩

theorem referencesClosed_command : ReferencesClosed (str "ip $VAR(../@)") := by
  intro before after split
  have whole : str "ip $VAR(../@)" = str "ip " ++ (varRefMarker ++ str "../@)") := rfl
  have short : before.length ≤ 8 := by
    have length := congrArg List.length split
    simp [varRefMarker, str] at length
    omega
  have place : ∀ n ≤ 8, varRefMarker <+: (str "ip $VAR(../@)").drop n → n = 3 := by decide
  have marked : varRefMarker <+: (str "ip $VAR(../@)").drop before.length := by
    rw [split, List.append_assoc, List.drop_left]
    exact List.prefix_append _ _
  have length := place before.length short marked
  refine ⟨str "../@", [], ?_, by decide, by decide⟩
  have same := congrArg (List.drop 8) split
  have marker : (before ++ varRefMarker).length = 8 := by
    rw [List.length_append, length]
    rfl
  rw [← marker, List.drop_left, marker] at same
  exact same.symm

theorem expands_to_command : ExpandsTo quietWorld quietGlobals (str "ip $VAR(../@)") () :=
  (expands_to_iff quietWorld quietGlobals (str "ip $VAR(../@)") () (by decide) referencesClosed_command).mpr
    (by decide)

/-- The loop copies the terminator of an empty string and reads on behind it. -/
theorem expands_empty_overruns : ¬ ∀ (σ : Type) (w : World σ) (g : Globals) (s : Bytes) (state : σ), 0 ∉ s →
    ReferencesClosed s → ExpandsTo w g s state := by
  intro all
  have closed : ReferencesClosed [] := by
    intro before after split
    simp [varRefMarker, str] at split
  obtain ⟨out, after, -, ended⟩ := all Unit quietWorld quietGlobals [] () (by decide) closed
  rw [expandString_nil] at ended
  cases ended

end VyattaCfg.Cliexec
