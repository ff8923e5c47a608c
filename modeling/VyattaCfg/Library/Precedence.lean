import Mathlib.Tactic.Common

namespace VyattaCfg.Precedence

/-- What an expression is made of: atoms, operators before, between and behind their operands, and brackets. -/
inductive Tree (A P I Q B : Type) where
  | atom (atom : A)
  | unary (op : P) (operand : Tree A P I Q B)
  | binary (left : Tree A P I Q B) (op : I) (right : Tree A P I Q B)
  | suffix (operand : Tree A P I Q B) (op : Q)
  | group (bracket : B) (inside : Tree A P I Q B)

inductive Lexeme (A P I Q B : Type) where
  | atom (atom : A)
  | unary (op : P)
  | binary (op : I)
  | suffix (op : Q)
  | opening (bracket : B)
  | closing (bracket : B)

/-- The precedences, of which the higher binds more tightly. Operators of one precedence group to the left. -/
structure Table (P I Q : Type) where
  unary : P → Nat
  binary : I → Nat
  suffix : Q → Nat

variable {A P I Q B : Type}

section Trees

/-- The text that the tree is one of. -/
def Tree.yield : Tree A P I Q B → List (Lexeme A P I Q B)
  | .atom a => [.atom a]
  | .unary op operand => .unary op :: operand.yield
  | .binary left op right => left.yield ++ .binary op :: right.yield
  | .suffix operand op => operand.yield ++ [.suffix op]
  | .group bracket inside => .opening bracket :: (inside.yield ++ [.closing bracket])

variable (table : Table P I Q)

/-- The precedences of the operators whose last operand ends with the tree. -/
def Tree.rightSpine : Tree A P I Q B → List Nat
  | .unary op operand => table.unary op :: operand.rightSpine
  | .binary _ op right => table.binary op :: right.rightSpine
  | .atom _ | .suffix _ _ | .group _ _ => []

/-- The precedences of the operators whose first operand starts with the tree. -/
def Tree.leftSpine : Tree A P I Q B → List Nat
  | .binary left op _ => table.binary op :: left.leftSpine
  | .suffix operand op => table.suffix op :: operand.leftSpine
  | .atom _ | .unary _ _ | .group _ _ => []

/-- An operator takes what is bound more tightly than itself behind it, and at least as tightly before it. -/
def Tree.Respects : Tree A P I Q B → Prop
  | .atom _ => True
  | .unary op operand => (∀ k ∈ operand.leftSpine table, table.unary op < k) ∧ operand.Respects
  | .binary left op right =>
    (∀ k ∈ left.rightSpine table, table.binary op ≤ k) ∧ (∀ k ∈ right.leftSpine table, table.binary op < k) ∧
      left.Respects ∧ right.Respects
  | .suffix operand op => (∀ k ∈ operand.rightSpine table, table.suffix op ≤ k) ∧ operand.Respects
  | .group _ inside => inside.Respects

end Trees

section Machine

/-- What stands on the stack and waits for the operand behind it. -/
inductive Frame (A P I Q B : Type) where
  | behind (left : Tree A P I Q B) (op : I)
  | unary (op : P)
  | opening (bracket : B)

def Frame.fill : Frame A P I Q B → Tree A P I Q B → Tree A P I Q B
  | .behind left op, t => .binary left op t
  | .unary op, t => .unary op t
  | .opening bracket, t => .group bracket t

/-- The last operand is behind the stack, if it is not the next one to come. -/
inductive State (A P I Q B : Type) where
  | operand (frames : List (Frame A P I Q B))
  | after (frames : List (Frame A P I Q B)) (last : Tree A P I Q B)

variable (table : Table P I Q)

/-- Whether the rule of a frame is reduced before an operator of the precedence is shifted. -/
def Frame.gives (k : Nat) : Frame A P I Q B → Bool
  | .behind _ op => decide (k ≤ table.binary op)
  | .unary op => decide (k ≤ table.unary op)
  | .opening _ => false

def reduce (k : Nat) : List (Frame A P I Q B) → Tree A P I Q B → List (Frame A P I Q B) × Tree A P I Q B
  | [], t => ([], t)
  | frame :: frames, t => if frame.gives table k then reduce k frames (frame.fill t) else (frame :: frames, t)

variable [DecidableEq B]

def step : State A P I Q B → Lexeme A P I Q B → Option (State A P I Q B)
  | .operand frames, .atom a => some (.after frames (.atom a))
  | .operand frames, .unary op => some (.operand (.unary op :: frames))
  | .operand frames, .opening bracket => some (.operand (.opening bracket :: frames))
  | .after frames last, .binary op =>
    let (frames, last) := reduce table (table.binary op) frames last
    some (.operand (.behind last op :: frames))
  | .after frames last, .suffix op =>
    let (frames, last) := reduce table (table.suffix op) frames last
    some (.after frames (.suffix last op))
  | .after frames last, .closing bracket =>
    match reduce table 0 frames last with
    | (.opening opened :: frames, last) => if opened = bracket then some (.after frames (.group bracket last)) else none
    | _ => none
  | _, _ => none

def State.tree : State A P I Q B → Option (Tree A P I Q B)
  | .operand _ => none
  | .after frames last =>
    match reduce table 0 frames last with
    | ([], last) => some last
    | _ => none

/-- The machine that shifts and reduces by precedences. -/
def parse (lexemes : List (Lexeme A P I Q B)) : Option (Tree A P I Q B) :=
  (lexemes.foldlM (step table) (.operand [])).bind (State.tree table)

end Machine

section Complete

variable {table : Table P I Q} {frames : List (Frame A P I Q B)} {k : Nat}

/-- The operators of the tree that wait until something behind it is bound less tightly. -/
def Tree.pending : Tree A P I Q B → List (Frame A P I Q B)
  | .unary op operand => operand.pending ++ [.unary op]
  | .binary left op right => right.pending ++ [.behind left op]
  | .atom _ | .suffix _ _ | .group _ _ => []

def Tree.last : Tree A P I Q B → Tree A P I Q B
  | .unary _ operand => operand.last
  | .binary _ _ right => right.last
  | t => t

/-- An operator of the precedence is shifted onto the stack as it is. -/
def Stops (table : Table P I Q) (k : Nat) (frames : List (Frame A P I Q B)) : Prop :=
  ∀ frame ∈ frames.head?, frame.gives table k = false

theorem reduce_stops (stops : Stops table k frames) (t : Tree A P I Q B) : reduce table k frames t = (frames, t) := by
  cases frames with
  | nil => rfl
  | cons frame frames =>
    have kept : frame.gives table k = false := stops frame rfl
    rw [reduce, kept]
    rfl

theorem reduce_pending (t : Tree A P I Q B) (tight : ∀ h ∈ t.rightSpine table, k ≤ h) :
    reduce table k (t.pending ++ frames) t.last = reduce table k frames t := by
  induction t generalizing frames with
  | atom a => rfl
  | suffix operand op => rfl
  | group bracket inside => rfl
  | unary op operand ih =>
    rw [Tree.rightSpine, List.forall_mem_cons] at tight
    have gives : (Frame.unary op : Frame A P I Q B).gives table k = true := decide_eq_true tight.1
    rw [Tree.pending, List.append_assoc, List.singleton_append, Tree.last, ih tight.2, reduce, if_pos gives]
    rfl
  | binary left op right _ ih =>
    rw [Tree.rightSpine, List.forall_mem_cons] at tight
    have gives : (Frame.behind left op : Frame A P I Q B).gives table k = true := decide_eq_true tight.1
    rw [Tree.pending, List.append_assoc, List.singleton_append, Tree.last, ih tight.2, reduce, if_pos gives]
    rfl

theorem reduce_tree {t : Tree A P I Q B} (tight : ∀ h ∈ t.rightSpine table, k ≤ h) (stops : Stops table k frames) :
    reduce table k (t.pending ++ frames) t.last = (frames, t) := by
  rw [reduce_pending t tight, reduce_stops stops]

variable [DecidableEq B]

/-- The machine reads a tree that respects the precedences onto any stack that its operators stop at. -/
theorem run_yield (t : Tree A P I Q B) (respects : t.Respects table)
    (stops : ∀ h ∈ t.leftSpine table, Stops table h frames) :
    t.yield.foldlM (step table) (.operand frames) = some (.after (t.pending ++ frames) t.last) := by
  induction t generalizing frames with
  | atom a => rfl
  | unary op operand ih =>
    have deeper : ∀ h ∈ operand.leftSpine table, Stops table h (.unary op :: frames) := by
      intro h inside frame here
      cases here
      exact decide_eq_false (Nat.not_le_of_lt (respects.1 h inside))
    have read := ih respects.2 deeper
    rw [Tree.yield, List.foldlM_cons, Tree.pending, List.append_assoc, List.singleton_append, Tree.last]
    exact read
  | binary left op right ihLeft ihRight =>
    obtain ⟨tight, loose, respectsLeft, respectsRight⟩ := respects
    rw [Tree.leftSpine, List.forall_mem_cons] at stops
    have deeper : ∀ h ∈ right.leftSpine table, Stops table h (.behind left op :: frames) := by
      intro h inside frame here
      cases here
      exact decide_eq_false (Nat.not_le_of_lt (loose h inside))
    have shifted : step table (.after (left.pending ++ frames) left.last) (.binary op) =
        some (.operand (.behind left op :: frames)) := by
      simp only [step, reduce_tree tight stops.1]
    have read := ihRight respectsRight deeper
    rw [Tree.yield, List.foldlM_append, ihLeft respectsLeft stops.2, Option.bind_eq_bind, Option.bind_some,
      List.foldlM_cons, shifted, Tree.pending, List.append_assoc, List.singleton_append, Tree.last]
    exact read
  | suffix operand op ih =>
    rw [Tree.leftSpine, List.forall_mem_cons] at stops
    have shifted : step table (.after (operand.pending ++ frames) operand.last) (.suffix op) =
        some (.after frames (.suffix operand op)) := by
      simp only [step, reduce_tree respects.1 stops.1]
    rw [Tree.yield, List.foldlM_append, ih respects.2 stops.2, Option.bind_eq_bind, Option.bind_some, List.foldlM_cons,
      shifted]
    rfl
  | group bracket inside ih =>
    have bottom : ∀ h, Stops table h (.opening bracket :: frames) := by
      intro h frame here
      cases here
      rfl
    have closed : step table (.after (inside.pending ++ .opening bracket :: frames) inside.last) (.closing bracket) =
        some (.after frames (.group bracket inside)) := by
      simp only [step, reduce_tree (fun h _ => Nat.zero_le h) (bottom 0), if_true]
    have read : _ = some (State.after (inside.pending ++ .opening bracket :: frames) inside.last) :=
      ih respects (fun h _ => bottom h)
    have opened : step table (.operand frames) (.opening bracket : Lexeme A P I Q B) =
        some (.operand (.opening bracket :: frames)) := rfl
    rw [Tree.yield, List.foldlM_cons, opened, Option.bind_eq_bind, Option.bind_some, List.foldlM_append, read,
      Option.bind_eq_bind, Option.bind_some, List.foldlM_cons, closed]
    rfl

theorem parse_yield {t : Tree A P I Q B} (respects : t.Respects table) : parse table t.yield = some t := by
  have none : ∀ h, Stops table h ([] : List (Frame A P I Q B)) := by
    intro h frame here
    cases here
  rw [parse, run_yield t respects (fun h _ => none h), Option.bind_some, State.tree,
    reduce_tree (fun h _ => Nat.zero_le h) (none 0)]

end Complete

section Sound

variable (table : Table P I Q)

def Frame.leftSpine : Frame A P I Q B → List Nat
  | .behind left op => table.binary op :: left.leftSpine table
  | .unary _ | .opening _ => []

/-- The operand that an operator on the stack has is the one that it would have in a tree. -/
def Frame.Respects : Frame A P I Q B → Prop
  | .behind left op => (∀ k ∈ left.rightSpine table, table.binary op ≤ k) ∧ left.Respects table
  | .unary _ | .opening _ => True

/-- The operators that a frame starts with were shifted onto those below. -/
def Stacked : List (Frame A P I Q B) → Prop
  | [] => True
  | frame :: frames => frame.Respects table ∧ (∀ k ∈ frame.leftSpine table, Stops table k frames) ∧ Stacked frames

def framesYield : List (Frame A P I Q B) → List (Lexeme A P I Q B)
  | [] => []
  | .behind left op :: frames => framesYield frames ++ (left.yield ++ [.binary op])
  | .unary op :: frames => framesYield frames ++ [.unary op]
  | .opening bracket :: frames => framesYield frames ++ [.opening bracket]

def State.yield : State A P I Q B → List (Lexeme A P I Q B)
  | .operand frames => framesYield frames
  | .after frames last => framesYield frames ++ last.yield

/-- A tree behind a stack: its first operators were shifted onto it. -/
structure Fits (frames : List (Frame A P I Q B)) (t : Tree A P I Q B) : Prop where
  stacked : Stacked table frames
  respects : t.Respects table
  shifted : ∀ k ∈ t.leftSpine table, Stops table k frames

def State.Sound : State A P I Q B → Prop
  | .operand frames => Stacked table frames
  | .after frames last => Fits table frames last ∧ last.rightSpine table = []

/-- What reducing leads to, for an operator of the precedence. -/
structure Reduced (k : Nat) (text : List (Lexeme A P I Q B)) (frames : List (Frame A P I Q B))
    (t : Tree A P I Q B) : Prop where
  fits : Fits table frames t
  tight : ∀ h ∈ t.rightSpine table, k ≤ h
  stops : Stops table k frames
  text : framesYield frames ++ t.yield = text

variable {table} {frames : List (Frame A P I Q B)} {t : Tree A P I Q B} {k : Nat}

theorem Fits.fill {frame : Frame A P I Q B} (fits : Fits table (frame :: frames) t) (gives : frame.gives table k) :
    Fits table frames (frame.fill t) ∧
      ((∀ h ∈ t.rightSpine table, k ≤ h) → ∀ h ∈ (frame.fill t).rightSpine table, k ≤ h) ∧
      framesYield frames ++ (frame.fill t).yield = framesYield (frame :: frames) ++ t.yield := by
  obtain ⟨⟨own, first, below⟩, respects, shifted⟩ := fits
  have looser : ∀ h ∈ t.leftSpine table, frame.gives table h = false := fun h inside => shifted h inside frame rfl
  cases frame with
  | behind left op =>
    have deeper : ∀ h ∈ t.leftSpine table, table.binary op < h := by
      intro h inside
      exact Nat.lt_of_not_le (of_decide_eq_false (looser h inside))
    refine ⟨⟨below, ⟨own.1, deeper, own.2, respects⟩, first⟩, ?_, ?_⟩
    · intro tight
      exact List.forall_mem_cons.mpr ⟨of_decide_eq_true gives, tight⟩
    · simp [Frame.fill, Tree.yield, framesYield]
  | unary op =>
    have deeper : ∀ h ∈ t.leftSpine table, table.unary op < h := by
      intro h inside
      exact Nat.lt_of_not_le (of_decide_eq_false (looser h inside))
    refine ⟨⟨below, ⟨deeper, respects⟩, nofun⟩, ?_, ?_⟩
    · intro tight
      exact List.forall_mem_cons.mpr ⟨of_decide_eq_true gives, tight⟩
    · simp [Frame.fill, Tree.yield, framesYield]
  | opening bracket => cases gives

theorem reduce_sound (fits : Fits table frames t) (tight : ∀ h ∈ t.rightSpine table, k ≤ h) :
    Reduced table k (framesYield frames ++ t.yield) (reduce table k frames t).1 (reduce table k frames t).2 := by
  induction frames generalizing t with
  | nil => exact ⟨fits, tight, nofun, rfl⟩
  | cons frame frames ih =>
    rw [reduce]
    by_cases gives : frame.gives table k = true
    · rw [if_pos gives]
      obtain ⟨filled, spine, text⟩ := fits.fill gives
      rw [← text]
      exact ih filled (spine tight)
    · rw [if_neg gives]
      refine ⟨fits, tight, ?_, rfl⟩
      intro top here
      cases here
      exact Bool.eq_false_iff.mpr gives

variable [DecidableEq B]

theorem step_sound {state next : State A P I Q B} {lexeme : Lexeme A P I Q B} (sound : state.Sound table)
    (stepped : step table state lexeme = some next) : next.Sound table ∧ next.yield = state.yield ++ [lexeme] := by
  cases state with
  | operand frames =>
    cases lexeme with
    | atom a =>
      cases stepped
      exact ⟨⟨⟨sound, trivial, nofun⟩, rfl⟩, rfl⟩
    | unary op =>
      cases stepped
      exact ⟨⟨trivial, nofun, sound⟩, rfl⟩
    | opening bracket =>
      cases stepped
      exact ⟨⟨trivial, nofun, sound⟩, rfl⟩
    | binary op => cases stepped
    | suffix op => cases stepped
    | closing bracket => cases stepped
  | after frames last =>
    obtain ⟨fits, ended⟩ := sound
    have tight : ∀ k, ∀ h ∈ last.rightSpine table, k ≤ h := by
      intro k h inside
      rw [ended] at inside
      cases inside
    cases lexeme with
    | binary op =>
      have reduced := reduce_sound fits (tight (table.binary op))
      cases stepped
      refine ⟨⟨⟨reduced.tight, reduced.fits.respects⟩, ?_, reduced.fits.stacked⟩, ?_⟩
      · exact List.forall_mem_cons.mpr ⟨reduced.stops, reduced.fits.shifted⟩
      · show framesYield _ ++ (_ ++ [_]) = framesYield frames ++ last.yield ++ [_]
        rw [← List.append_assoc, reduced.text]
    | suffix op =>
      have reduced := reduce_sound fits (tight (table.suffix op))
      cases stepped
      refine ⟨⟨⟨reduced.fits.stacked, ⟨reduced.tight, reduced.fits.respects⟩, ?_⟩, rfl⟩, ?_⟩
      · exact List.forall_mem_cons.mpr ⟨reduced.stops, reduced.fits.shifted⟩
      · show framesYield _ ++ (_ ++ [_]) = framesYield frames ++ last.yield ++ [_]
        rw [← List.append_assoc, reduced.text]
    | closing bracket =>
      have reduced := reduce_sound fits (tight 0)
      rw [step] at stepped
      split at stepped
      · rename_i opened below inside found
        rw [found] at reduced
        split_ifs at stepped with same
        subst same
        cases stepped
        refine ⟨⟨⟨reduced.fits.stacked.2.2, reduced.fits.respects, nofun⟩, rfl⟩, ?_⟩
        show framesYield below ++ .opening opened :: (inside.yield ++ [.closing opened]) =
          framesYield frames ++ last.yield ++ [.closing opened]
        rw [← reduced.text]
        simp [framesYield]
      · cases stepped
    | atom a => cases stepped
    | unary op => cases stepped
    | opening bracket => cases stepped

theorem run_sound {state last : State A P I Q B} {lexemes : List (Lexeme A P I Q B)} (sound : state.Sound table)
    (ran : lexemes.foldlM (step table) state = some last) :
    last.Sound table ∧ last.yield = state.yield ++ lexemes := by
  induction lexemes generalizing state with
  | nil =>
    cases ran
    exact ⟨sound, (List.append_nil _).symm⟩
  | cons lexeme lexemes ih =>
    rw [List.foldlM_cons] at ran
    obtain ⟨next, stepped, rest⟩ := Option.bind_eq_some_iff.mp ran
    obtain ⟨kept, text⟩ := step_sound sound stepped
    obtain ⟨ended, whole⟩ := ih kept rest
    refine ⟨ended, ?_⟩
    rw [whole, text, List.append_assoc, List.singleton_append]

/-- What the machine reads is the tree of the text that respects the precedences. -/
theorem parse_eq_some_iff {lexemes : List (Lexeme A P I Q B)} :
    parse table lexemes = some t ↔ t.yield = lexemes ∧ t.Respects table := by
  constructor
  · intro parsed
    obtain ⟨state, ran, ended⟩ := Option.bind_eq_some_iff.mp parsed
    obtain ⟨sound, text⟩ := run_sound (show (State.operand []).Sound table from trivial) ran
    cases state with
    | operand frames => cases ended
    | after frames last =>
      have reduced := reduce_sound sound.1 (k := 0) (fun h _ => Nat.zero_le h)
      rw [State.tree] at ended
      split at ended
      · rename_i whole found
        rw [found] at reduced
        cases ended
        exact ⟨reduced.text.trans text, reduced.fits.respects⟩
      · cases ended
  · rintro ⟨rfl, respects⟩
    exact parse_yield respects

end Sound

section Total

variable {table : Table P I Q}

/-- The part of the stack from its last open bracket on. -/
def base : List (Frame A P I Q B) → List (Frame A P I Q B)
  | [] => []
  | .opening bracket :: frames => .opening bracket :: frames
  | _ :: frames => base frames

theorem base_reduce (k : Nat) (frames : List (Frame A P I Q B)) (t : Tree A P I Q B) :
    base (reduce table k frames t).1 = base frames := by
  induction frames generalizing t with
  | nil => rfl
  | cons frame frames ih =>
    rw [reduce]
    split
    · rename_i gives
      rw [ih]
      cases frame with
      | opening bracket => cases gives
      | behind left op => rfl
      | unary op => rfl
    · rfl

theorem reduce_zero (frames : List (Frame A P I Q B)) (t : Tree A P I Q B) :
    (reduce table 0 frames t).1 = base frames := by
  induction frames generalizing t with
  | nil => rfl
  | cons frame frames ih =>
    rw [reduce]
    cases frame with
    | opening bracket => rfl
    | behind left op => exact ih _
    | unary op => exact ih _

variable [DecidableEq B]

/-- Whatever a text was meant as, the machine reads it. -/
theorem run_total (t : Tree A P I Q B) (frames : List (Frame A P I Q B)) :
    ∃ after last, t.yield.foldlM (step table) (.operand frames) = some (.after after last) ∧
      base after = base frames := by
  induction t generalizing frames with
  | atom a => exact ⟨frames, .atom a, rfl, rfl⟩
  | unary op operand ih =>
    obtain ⟨after, last, ran, kept⟩ := ih (.unary op :: frames)
    exact ⟨after, last, ran, kept⟩
  | binary left op right ihLeft ihRight =>
    obtain ⟨middle, last, ran, kept⟩ := ihLeft frames
    obtain ⟨after, last', ran', kept'⟩ :=
      ihRight (.behind (reduce table (table.binary op) middle last).2 op :: (reduce table (table.binary op) middle last).1)
    refine ⟨after, last', ?_, kept'.trans ((base_reduce _ _ _).trans kept)⟩
    rw [Tree.yield, List.foldlM_append, ran]
    exact ran'
  | suffix operand op ih =>
    obtain ⟨after, last, ran, kept⟩ := ih frames
    refine ⟨(reduce table (table.suffix op) after last).1, .suffix (reduce table (table.suffix op) after last).2 op, ?_,
      (base_reduce _ _ _).trans kept⟩
    rw [Tree.yield, List.foldlM_append, ran]
    rfl
  | group bracket inside ih =>
    obtain ⟨after, last, ran, kept⟩ := ih (.opening bracket :: frames)
    refine ⟨frames, .group bracket (reduce table 0 after last).2, ?_, rfl⟩
    have bottom : reduce table 0 after last = (.opening bracket :: frames, (reduce table 0 after last).2) :=
      Prod.ext ((reduce_zero after last).trans kept) rfl
    have closed : step table (.after after last) (.closing bracket) =
        some (.after frames (.group bracket (reduce table 0 after last).2)) := by
      rw [step, bottom]
      exact if_pos rfl
    have opened : step table (.operand frames) (.opening bracket : Lexeme A P I Q B) =
        some (.operand (.opening bracket :: frames)) := rfl
    rw [Tree.yield, List.foldlM_cons, opened, Option.bind_eq_bind, Option.bind_some, List.foldlM_append, ran,
      Option.bind_eq_bind, Option.bind_some, List.foldlM_cons, closed]
    rfl

/-- Of the trees of a text one respects the precedences, and the machine finds it. -/
theorem parse_total (table : Table P I Q) (t : Tree A P I Q B) : ∃ found, parse table t.yield = some found := by
  obtain ⟨after, last, ran, kept⟩ : ∃ after last,
      t.yield.foldlM (step table) (.operand []) = some (.after after last) ∧ base after = base [] := run_total t []
  refine ⟨(reduce table 0 after last).2, ?_⟩
  have bottom : reduce table 0 after last = ([], (reduce table 0 after last).2) :=
    Prod.ext ((reduce_zero after last).trans kept) rfl
  rw [parse, ran, Option.bind_some, State.tree, bottom]

end Total

section Brackets

variable (table : Table P I Q) (bracket : B)

/-- A tree in brackets, if it needs them. -/
def Tree.bracketed (bare : Prop) [Decidable bare] (t : Tree A P I Q B) : Tree A P I Q B :=
  if bare then t else .group bracket t

def unaryOf (op : P) (operand : Tree A P I Q B) : Tree A P I Q B :=
  .unary op (operand.bracketed bracket (∀ k ∈ operand.leftSpine table, table.unary op < k))

def binaryOf (left : Tree A P I Q B) (op : I) (right : Tree A P I Q B) : Tree A P I Q B :=
  .binary (left.bracketed bracket (∀ k ∈ left.rightSpine table, table.binary op ≤ k)) op
    (right.bracketed bracket (∀ k ∈ right.leftSpine table, table.binary op < k))

def suffixOf (operand : Tree A P I Q B) (op : Q) : Tree A P I Q B :=
  .suffix (operand.bracketed bracket (∀ k ∈ operand.rightSpine table, table.suffix op ≤ k)) op

variable {table} {t left right : Tree A P I Q B}

theorem Tree.Respects.bracketed (respects : t.Respects table) (bare : Prop) [Decidable bare] :
    (t.bracketed bracket bare).Respects table := by
  unfold Tree.bracketed
  split <;> exact respects

theorem Tree.leftSpine_bracketed {p : Nat → Prop} [Decidable (∀ k ∈ t.leftSpine table, p k)] :
    ∀ k ∈ (t.bracketed bracket (∀ k ∈ t.leftSpine table, p k)).leftSpine table, p k := by
  unfold Tree.bracketed
  split
  · assumption
  · exact nofun

theorem Tree.rightSpine_bracketed {p : Nat → Prop} [Decidable (∀ k ∈ t.rightSpine table, p k)] :
    ∀ k ∈ (t.bracketed bracket (∀ k ∈ t.rightSpine table, p k)).rightSpine table, p k := by
  unfold Tree.bracketed
  split
  · assumption
  · exact nofun

theorem respects_unaryOf (op : P) (respects : t.Respects table) : (unaryOf table bracket op t).Respects table :=
  ⟨Tree.leftSpine_bracketed bracket, respects.bracketed bracket _⟩

theorem respects_binaryOf (op : I) (respects : left.Respects table) (respects' : right.Respects table) :
    (binaryOf table bracket left op right).Respects table :=
  ⟨Tree.rightSpine_bracketed bracket, Tree.leftSpine_bracketed bracket, respects.bracketed bracket _,
    respects'.bracketed bracket _⟩

theorem respects_suffixOf (op : Q) (respects : t.Respects table) : (suffixOf table bracket t op).Respects table :=
  ⟨Tree.rightSpine_bracketed bracket, respects.bracketed bracket _⟩

end Brackets

end VyattaCfg.Precedence
