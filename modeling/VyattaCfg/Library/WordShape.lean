import VyattaCfg.Library.Regex

namespace Regex

variable {α : Type*}

/-- The symbols of the words. -/
def letters : RegularExpression α → List α
  | .zero | .epsilon => []
  | .char a => [a]
  | .plus r s | .comp r s => letters r ++ letters s
  | .star r => letters r

/-- The symbols that a word can start with. -/
def firsts : RegularExpression α → List α
  | .zero | .epsilon => []
  | .char a => [a]
  | .plus r s => firsts r ++ firsts s
  | .comp r s => if r.matchEpsilon then firsts r ++ firsts s else firsts r
  | .star r => firsts r

theorem mem_letters {r : RegularExpression α} {w : List α} (word : w ∈ r.matches') : ∀ c ∈ w, c ∈ letters r := by
  induction r generalizing w with
  | zero => exact absurd word (Language.notMem_zero w)
  | epsilon =>
    rw [(Language.mem_one w).mp word]
    exact List.forall_mem_nil _
  | char a =>
    rw [show w = [a] from word]
    exact fun c member => member
  | plus r s ihr ihs =>
    intro c member
    rcases mem_add.mp word with left | right
    · exact List.mem_append_left _ (ihr left c member)
    · exact List.mem_append_right _ (ihs right c member)
  | comp r s ihr ihs =>
    obtain ⟨a, left, b, right, rfl⟩ := mem_mul.mp word
    intro c member
    rcases List.mem_append.mp member with here | there
    · exact List.mem_append_left _ (ihr left c here)
    · exact List.mem_append_right _ (ihs right c there)
  | star r ih =>
    rw [RegularExpression.matches'_star, Language.mem_kstar] at word
    obtain ⟨pieces, rfl, all⟩ := word
    intro c member
    obtain ⟨piece, inside, here⟩ := List.mem_flatten.mp member
    exact ih (all piece inside) c here

theorem mem_firsts {r : RegularExpression α} {c : α} {w : List α} (word : c :: w ∈ r.matches') : c ∈ firsts r := by
  induction r generalizing w with
  | zero => exact absurd word (Language.notMem_zero _)
  | epsilon => exact nomatch (Language.mem_one _).mp word
  | char a =>
    obtain ⟨rfl, -⟩ := List.cons.inj (show c :: w = [a] from word)
    exact List.mem_singleton_self _
  | plus r s ihr ihs =>
    rcases mem_add.mp word with left | right
    · exact List.mem_append_left _ (ihr left)
    · exact List.mem_append_right _ (ihs right)
  | comp r s ihr ihs =>
    obtain ⟨a, left, b, right, same⟩ := mem_mul.mp word
    rw [firsts]
    cases a with
    | nil =>
      have empty : r.matchEpsilon = true := by
        classical exact (RegularExpression.rmatch_iff_matches' r []).mpr left
      rw [List.nil_append] at same
      rw [if_pos empty]
      exact List.mem_append_right _ (ihs (same ▸ right))
    | cons d a =>
      obtain ⟨rfl, -⟩ := List.cons.inj same
      split
      · exact List.mem_append_left _ (ihr left)
      · exact ihr left
  | star r ih =>
    rw [RegularExpression.matches'_star, Language.mem_kstar] at word
    obtain ⟨pieces, same, all⟩ := word
    induction pieces with
    | nil => cases same
    | cons piece pieces ih' =>
      rw [List.forall_mem_cons] at all
      cases piece with
      | nil => exact ih' same all.2
      | cons d piece =>
        obtain ⟨rfl, -⟩ := List.cons.inj same
        exact ih all.1

/-- No word goes on from `w` with `c`. -/
def Stops (r : RegularExpression α) (w : List α) (c : α) : Prop := ∀ v, w ++ c :: v ∉ r.matches'

/-- No word goes on from `w` into what follows. -/
def Ends (r : RegularExpression α) (w rest : List α) : Prop := ∀ v, v ≠ [] → v <+: rest → w ++ v ∉ r.matches'

theorem ends_of_stops {r : RegularExpression α} {w rest : List α} (stops : ∀ c ∈ rest.head?, Stops r w c) :
    Ends r w rest := by
  intro v some inside
  obtain ⟨c, v, rfl⟩ := List.exists_cons_of_ne_nil some
  obtain ⟨rest, rfl⟩ := inside
  exact stops c rfl v

/-- A symbol that no word has. -/
theorem notMem_of_foreign {r : RegularExpression α} {w : List α} {a : α} (inside : a ∈ w) (foreign : a ∉ letters r) :
    w ∉ r.matches' := by
  intro word
  exact foreign (mem_letters word a inside)

theorem stops_of_letter {r : RegularExpression α} {c : α} (foreign : c ∉ letters r) (w : List α) : Stops r w c := by
  intro v word
  exact foreign (mem_letters word c (by simp))

theorem stops_of_first {r : RegularExpression α} {a : α} (other : a ∉ firsts r) (w : List α) (c : α) :
    Stops r (a :: w) c := by
  intro v word
  exact other (mem_firsts word)

theorem stops_of_foreign {r : RegularExpression α} {w : List α} {a : α} (inside : a ∈ w) (foreign : a ∉ letters r)
    (c : α) : Stops r w c := by
  intro v
  exact notMem_of_foreign (List.mem_append_left _ inside) foreign

theorem stops_of_length {r : RegularExpression α} {n : Nat} (bounded : ∀ w ∈ r.matches', w.length ≤ n) {w : List α}
    (long : n ≤ w.length) (c : α) : Stops r w c := by
  intro v word
  have length := bounded _ word
  rw [List.length_append, List.length_cons] at length
  omega

theorem mem_star_of_each {r : RegularExpression α} {w : List α} (each : ∀ a ∈ w, [a] ∈ r.matches') :
    w ∈ r.star.matches' := by
  rw [RegularExpression.matches'_star, Language.mem_kstar]
  refine ⟨w.map fun a => [a], ?_, ?_⟩
  · induction w with
    | nil => rfl
    | cons a w ih =>
      rw [List.map_cons, List.flatten_cons, ← ih fun b inside => each b (List.mem_cons_of_mem a inside)]
      rfl
  · intro piece inside
    obtain ⟨a, known, rfl⟩ := List.mem_map.mp inside
    exact each a known

theorem mem_of_front {w v front back : List α} {b c : α} (same : w ++ v = front ++ b :: back)
    (next : ∀ d ∈ v.head?, d = c) (free : c ∉ front) (other : b ≠ c) : b ∈ w := by
  induction front generalizing w with
  | nil =>
    cases w with
    | nil =>
      rw [List.nil_append] at same
      exact absurd (next b (by rw [same]; rfl)) other
    | cons d w =>
      obtain ⟨rfl, -⟩ := List.cons.inj same
      exact List.mem_cons_self
  | cons d front ih =>
    rw [List.mem_cons, not_or] at free
    cases w with
    | nil =>
      rw [List.nil_append] at same
      exact absurd (next d (by rw [same]; rfl)).symm free.1
    | cons e w =>
      obtain ⟨-, same⟩ := List.cons.inj same
      exact List.mem_cons_of_mem e (ih same free.2)

/-- Every word has a symbol of `p`. -/
def marked (p : α → Bool) : RegularExpression α → Bool
  | .zero => true
  | .epsilon => false
  | .char a => p a
  | .plus r s => marked p r && marked p s
  | .comp r s => marked p r || marked p s
  | .star _ => false

theorem marked_sound {p : α → Bool} {r : RegularExpression α} (check : marked p r = true) {w : List α}
    (word : w ∈ r.matches') : ∃ a ∈ w, p a = true := by
  induction r generalizing w with
  | zero => exact absurd word (Language.notMem_zero w)
  | epsilon => cases check
  | char a =>
    rw [show w = [a] from word]
    exact ⟨a, List.mem_singleton_self a, check⟩
  | plus r s ihr ihs =>
    have both := (Bool.and_eq_true _ _).mp check
    exact (mem_add.mp word).elim (ihr both.1) (ihs both.2)
  | comp r s ihr ihs =>
    obtain ⟨x, left, y, right, rfl⟩ := mem_mul.mp word
    rcases Bool.or_eq_true_iff.mp check with here | there
    · obtain ⟨a, inside, shown⟩ := ihr here left
      exact ⟨a, List.mem_append_left y inside, shown⟩
    · obtain ⟨a, inside, shown⟩ := ihs there right
      exact ⟨a, List.mem_append_right x inside, shown⟩
  | star r ih => cases check

/-- The words are texts over the alphabet. -/
def Spelled (alphabet : List α) (r : RegularExpression α) : Prop := ∀ a ∈ letters r, a ∈ alphabet

section Spelled

variable {alphabet : List α} {r s : RegularExpression α}

@[simp]
theorem spelled_add : Spelled alphabet (r + s) ↔ Spelled alphabet r ∧ Spelled alphabet s := List.forall_mem_append

@[simp]
theorem spelled_mul : Spelled alphabet (r * s) ↔ Spelled alphabet r ∧ Spelled alphabet s := List.forall_mem_append

@[simp]
theorem spelled_star : Spelled alphabet r.star ↔ Spelled alphabet r := Iff.rfl

@[simp]
theorem spelled_lit {symbols : List α} : Spelled alphabet (lit symbols) ↔ ∀ a ∈ symbols, a ∈ alphabet := by
  induction symbols with
  | nil => exact Iff.rfl
  | cons a symbols ih =>
    rw [List.forall_mem_cons, ← ih]
    exact List.forall_mem_cons

@[simp]
theorem spelled_anyOf {symbols : List α} : Spelled alphabet (anyOf symbols) ↔ ∀ a ∈ symbols, a ∈ alphabet := by
  induction symbols with
  | nil => exact Iff.rfl
  | cons a symbols ih =>
    rw [List.forall_mem_cons, ← ih]
    exact List.forall_mem_cons

@[simp]
theorem spelled_opt : Spelled alphabet (opt r) ↔ Spelled alphabet r := Iff.rfl

theorem Spelled.pow (spelled : Spelled alphabet r) (n : Nat) : Spelled alphabet (r ^ n) := by
  induction n with
  | zero => exact List.forall_mem_nil _
  | succ n ih => exact spelled_mul.mpr ⟨ih, spelled⟩

theorem Spelled.upTo (spelled : Spelled alphabet r) (n : Nat) : Spelled alphabet (upTo r n) := by
  induction n with
  | zero => exact List.forall_mem_nil _
  | succ n ih => exact spelled_opt.mpr (spelled_mul.mpr ⟨spelled, ih⟩)

theorem Spelled.rep (spelled : Spelled alphabet r) (low high : Nat) : Spelled alphabet (rep low high r) :=
  spelled_mul.mpr ⟨spelled.pow low, spelled.upTo (high - low)⟩

theorem Spelled.mem (spelled : Spelled alphabet r) {w : List α} (word : w ∈ r.matches') : ∀ a ∈ w, a ∈ alphabet :=
  fun a inside => spelled a (mem_letters word a inside)

end Spelled

variable [DecidableEq α]

/-- Sums and products without what has no words. -/
def trimAdd : RegularExpression α → RegularExpression α → RegularExpression α
  | .zero, s => s
  | r, .zero => r
  | r, s => .plus r s

def trimMul : RegularExpression α → RegularExpression α → RegularExpression α
  | .zero, _ => .zero
  | .epsilon, s => s
  | r, s => .comp r s

omit [DecidableEq α] in
theorem mem_trimAdd {r s : RegularExpression α} {w : List α} :
    w ∈ (trimAdd r s).matches' ↔ w ∈ r.matches' ∨ w ∈ s.matches' := by
  have none : w ∉ (0 : RegularExpression α).matches' := Language.notMem_zero w
  fun_cases trimAdd r s with
  | case1 => exact (or_iff_right none).symm
  | case2 => exact (or_iff_left none).symm
  | case3 => exact mem_add

omit [DecidableEq α] in
theorem mem_trimMul {r s : RegularExpression α} {w : List α} :
    w ∈ (trimMul r s).matches' ↔ w ∈ (r * s).matches' := by
  fun_cases trimMul r s with
  | case1 =>
    apply iff_of_false (Language.notMem_zero w)
    intro word
    obtain ⟨x, none, -⟩ := mem_mul.mp word
    exact Language.notMem_zero x none
  | case2 =>
    rw [mem_mul]
    constructor
    · exact fun word => ⟨[], Language.nil_mem_one, w, word, rfl⟩
    · rintro ⟨x, empty, y, word, rfl⟩
      rw [(Language.mem_one x).mp empty]
      exact word
  | case3 => exact Iff.rfl

/-- The derivative, kept small. -/
def after : RegularExpression α → α → RegularExpression α
  | .zero, _ | .epsilon, _ => .zero
  | .char b, a => if b = a then .epsilon else .zero
  | .plus r s, a => trimAdd (after r a) (after s a)
  | .comp r s, a =>
    if r.matchEpsilon then trimAdd (trimMul (after r a) s) (after s a) else trimMul (after r a) s
  | .star r, a => trimMul (after r a) (.star r)

theorem mem_after {r : RegularExpression α} {a : α} {w : List α} :
    w ∈ (after r a).matches' ↔ w ∈ (r.deriv a).matches' := by
  have product : ∀ {r r' s : RegularExpression α} {w : List α}, (∀ {w}, w ∈ r.matches' ↔ w ∈ r'.matches') →
      (w ∈ (trimMul r s).matches' ↔ w ∈ (r' * s).matches') := by
    intro r r' s w same
    rw [mem_trimMul, mem_mul, mem_mul]
    simp only [same]
  induction r generalizing w with
  | zero | epsilon => exact Iff.rfl
  | char b =>
    rw [after, RegularExpression.deriv]
    split <;> exact Iff.rfl
  | plus r s ihr ihs =>
    rw [after, RegularExpression.deriv]
    exact (mem_trimAdd.trans (or_congr ihr ihs)).trans mem_add.symm
  | comp r s ihr ihs =>
    rw [after, RegularExpression.deriv]
    split
    · exact (mem_trimAdd.trans (or_congr (product ihr) ihs)).trans mem_add.symm
    · exact product ihr
  | star r ih => exact product ih

def derivs (r : RegularExpression α) (w : List α) : RegularExpression α := w.foldl after r

theorem mem_derivs {r : RegularExpression α} {w v : List α} : v ∈ (derivs r w).matches' ↔ w ++ v ∈ r.matches' := by
  induction w generalizing r with
  | nil => rfl
  | cons a w ih =>
    show v ∈ (derivs (after r a) w).matches' ↔ _
    rw [ih, mem_after, ← RegularExpression.rmatch_iff_matches', ← RegularExpression.rmatch_iff_matches']
    rfl

/-- Whether the whole of a text is a word. -/
def whole (w : List α) (r : RegularExpression α) : Bool := (derivs r w).matchEpsilon

theorem whole_iff {r : RegularExpression α} {w : List α} : whole w r = true ↔ w ∈ r.matches' := by
  have empty := RegularExpression.rmatch_iff_matches' (derivs r w) []
  rw [mem_derivs, List.append_nil] at empty
  exact empty

/-- What holds of the symbols that a word can go on with holds of those that it does. -/
theorem mem_of_derivs {r : RegularExpression α} {w v : List α} {p : α → Prop}
    (all : ∀ a ∈ letters (derivs r w), p a) (word : w ++ v ∈ r.matches') : ∀ a ∈ v, p a := by
  intro a inside
  exact all a (mem_letters (mem_derivs.mpr word) a inside)

def barren (r : RegularExpression α) : Bool := (letters r).isEmpty && !r.matchEpsilon

theorem barren_sound {r : RegularExpression α} (check : barren r = true) (w : List α) : w ∉ r.matches' := by
  intro word
  obtain ⟨none, empty⟩ := (Bool.and_eq_true _ _).mp check
  cases w with
  | nil =>
    have own := (RegularExpression.rmatch_iff_matches' r []).mpr word
    rw [RegularExpression.rmatch] at own
    rw [own] at empty
    cases empty
  | cons a w =>
    have listed := mem_letters word a List.mem_cons_self
    rw [List.isEmpty_iff.mp none] at listed
    cases listed

theorem stops_of_derivs {r : RegularExpression α} {w : List α} {c : α} (other : c ∉ firsts (derivs r w)) :
    Stops r w c := by
  intro v word
  exact other (mem_firsts (mem_derivs.mpr word))

/-- Every word has a symbol of `p`, and no `c` before it. -/
def shows (p : α → Bool) (c : α) : RegularExpression α → Bool
  | .zero => true
  | .epsilon => false
  | .char a => p a
  | .plus r s => shows p c r && shows p c s
  | .comp r s => shows p c r || (decide (c ∉ letters r) && shows p c s)
  | .star _ => false

theorem shows_sound {p : α → Bool} {c : α} {r : RegularExpression α} (check : shows p c r = true) {w : List α}
    (word : w ∈ r.matches') : ∃ front a back, w = front ++ a :: back ∧ p a = true ∧ c ∉ front := by
  induction r generalizing w with
  | zero => exact absurd word (Language.notMem_zero w)
  | epsilon => cases check
  | char a => exact ⟨[], a, [], word, check, List.not_mem_nil⟩
  | plus r s ihr ihs =>
    have both := (Bool.and_eq_true _ _).mp check
    rcases mem_add.mp word with left | right
    · exact ihr both.1 left
    · exact ihs both.2 right
  | comp r s ihr ihs =>
    obtain ⟨x, left, y, right, rfl⟩ := mem_mul.mp word
    rcases Bool.or_eq_true_iff.mp check with here | there
    · obtain ⟨front, a, back, rfl, shown, free⟩ := ihr here left
      exact ⟨front, a, back ++ y, by rw [List.append_assoc, List.cons_append], shown, free⟩
    · have both := (Bool.and_eq_true _ _).mp there
      obtain ⟨front, a, back, rfl, shown, free⟩ := ihs both.2 right
      refine ⟨x ++ front, a, back, (List.append_assoc ..).symm, shown, ?_⟩
      rw [List.mem_append, not_or]
      exact ⟨fun inside => of_decide_eq_true both.1 (mem_letters left c inside), free⟩
  | star r ih => cases check

/-- What tells the words from texts over an alphabet, and from these with `c` behind them. -/
def apart (alphabet : List α) (c : α) : RegularExpression α → Bool
  | .plus r s => apart alphabet c r && apart alphabet c s
  | r => shows (fun a => decide (a ∉ alphabet ∧ a ≠ c)) c r || alphabet.all fun a => decide (a ∉ firsts r)

theorem apart_sound {alphabet : List α} {c : α} {r : RegularExpression α} (check : apart alphabet c r = true)
    {w : List α} (nonempty : w ≠ []) (inside : ∀ a ∈ w, a ∈ alphabet) : w ∉ r.matches' ∧ Stops r w c := by
  have base : ∀ r : RegularExpression α, (shows (fun a => decide (a ∉ alphabet ∧ a ≠ c)) c r ||
      alphabet.all fun a => decide (a ∉ firsts r)) = true → w ∉ r.matches' ∧ Stops r w c := by
    intro r check
    rcases Bool.or_eq_true_iff.mp check with shown | other
    · have later : ∀ v, (∀ d ∈ v.head?, d = c) → w ++ v ∉ r.matches' := by
        intro v next word
        obtain ⟨front, b, back, same, foreign, free⟩ := shows_sound shown word
        have foreign := of_decide_eq_true foreign
        exact foreign.1 (inside b (mem_of_front same next free foreign.2))
      refine ⟨?_, fun v => later (c :: v) ?_⟩
      · rw [← List.append_nil w]
        exact later [] (by simp)
      · simp
    · cases w with
      | nil => exact absurd rfl nonempty
      | cons a w =>
        have unlike := of_decide_eq_true (List.all_eq_true.mp other a (inside a List.mem_cons_self))
        exact ⟨fun word => unlike (mem_firsts word), stops_of_first unlike w c⟩
  induction r with
  | plus r s ihr ihs =>
    have both := (Bool.and_eq_true _ _).mp check
    have left := ihr both.1
    have right := ihs both.2
    refine ⟨fun word => (mem_add.mp word).elim left.1 right.1, fun v word => ?_⟩
    exact (mem_add.mp word).elim (left.2 v) (right.2 v)
  | _ => exact base _ check

/-- No word goes on from `w` with one of the symbols of `next`. -/
def halts (w : List α) (next : α → Bool) (r : RegularExpression α) : Bool :=
  w.head?.any (fun a => decide (a ∉ firsts r)) || (firsts (derivs r w)).all fun c => !next c

theorem halts_sound {w : List α} {next : α → Bool} {r : RegularExpression α} (check : halts w next r = true) {c : α}
    (follows : next c = true) : Stops r w c := by
  rcases Bool.or_eq_true_iff.mp check with unlike | ended
  · cases w with
    | nil => cases unlike
    | cons a w => exact stops_of_first (of_decide_eq_true unlike) w c
  · apply stops_of_derivs
    intro goes
    have barred := List.all_eq_true.mp ended c goes
    rw [follows] at barred
    cases barred

end Regex
