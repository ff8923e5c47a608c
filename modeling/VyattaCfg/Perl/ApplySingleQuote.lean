import VyattaCfg.Library.ShellQuotes
import Mathlib.Data.List.Basic

namespace VyattaCfg.Perl

open ByteString Shell

/-- What stands between two `q`, one at each end. -/
def wrapped (q : UInt8) (s : Bytes) : Option Bytes :=
  match s with
  | [] => none
  | c :: rest => if c = q ∧ rest.getLast? = some q then some rest.dropLast else none

/-- `$` matches at the end and before a newline there. -/
def chomp (s : Bytes) : Bytes := if s.getLast? = some newline then s.dropLast else s

/-- `$1` of `/^q(.*)q$/`; the dot takes no newline. -/
def enclosed (q : UInt8) (s : Bytes) : Option Bytes := (wrapped q (chomp s)).filter (newline ∉ ·)

/-- `if (/^'(.*)'$/) { $_ = $1; }` -/
def stripped (component : Bytes) : Bytes := (enclosed squote component).getD component

/-- One round of `applySingleQuote`. -/
def singleQuote (component : Bytes) : Bytes :=
  let escaped := escape (stripped component)
  if (enclosed squote escaped).isSome then escaped
  else match enclosed dquote escaped with
    | some inside => squoted inside
    | none => squoted escaped

def applySingleQuote (components : List Bytes) : List Bytes := components.map singleQuote

/-- The component less one enclosing pair of single or double quotes. -/
def unwrapped (component : Bytes) : Bytes :=
  ((wrapped squote component).orElse fun _ => wrapped dquote component).getD component

/-- Quoting keeps the component: no newline between enclosing quotes, no second pair of quotes
    or quote at both ends right inside single ones, no newline behind a closing quote, and not a
    single quote alone. -/
structure Quotable (component : Bytes) : Prop where
  single : ∀ m ∈ wrapped squote component,
    newline ∉ m ∧ ¬ (m.head? = some squote ∧ m.getLast? = some squote) ∧ wrapped dquote m = none
  double : ∀ m ∈ wrapped dquote component, newline ∉ m
  ended : ∀ s, component = s ++ [newline] → ∀ q ∈ [squote, dquote], ∀ m ∈ wrapped q s, newline ∈ m
  more : component ≠ [squote] ∧ component ≠ [squote, newline]

theorem wrapped_eq_some {q : UInt8} {s m : Bytes} : wrapped q s = some m ↔ s = q :: (m ++ [q]) := by
  unfold wrapped
  cases s with
  | nil => simp
  | cons c rest =>
    dsimp only
    constructor
    · intro found
      split at found
      · rename_i both
        obtain ⟨rfl, last⟩ := both
        rw [← Option.some.inj found, List.dropLast_append_getLast? c last]
      · cases found
    · intro same
      obtain ⟨rfl, rfl⟩ := List.cons.inj same
      simp

theorem length_of_wrapped {q : UInt8} {s m : Bytes} (found : wrapped q s = some m) :
    s.length = m.length + 2 := by
  simp [wrapped_eq_some.mp found]

theorem chomp_ended (s : Bytes) : chomp (s ++ [newline]) = s := by simp [chomp]

theorem chomp_of_not_ended {s : Bytes} (open_ : s.getLast? ≠ some newline) : chomp s = s := if_neg open_

theorem chomp_of_wrapped {q : UInt8} {s m : Bytes} (quote : q ≠ newline) (found : wrapped q s = some m) :
    chomp s = s := by
  apply chomp_of_not_ended
  simpa [wrapped_eq_some.mp found, List.getLast?_cons] using quote

theorem chomp_cases (s : Bytes) : chomp s = s ∨ s = chomp s ++ [newline] := by
  by_cases last : s.getLast? = some newline
  · right
    rw [chomp, if_pos last, List.dropLast_append_getLast? newline last]
  · exact .inl (chomp_of_not_ended last)

/-- What `/^q(.*)q$/` leaves out is the two quotes and a newline behind them. -/
theorem enclosed_cases {q : UInt8} {s m : Bytes} (found : enclosed q s = some m) :
    newline ∉ m ∧ (s = q :: (m ++ [q]) ∨ s = q :: (m ++ [q]) ++ [newline]) := by
  obtain ⟨inside, line⟩ := Option.filter_eq_some_iff.mp found
  have text := wrapped_eq_some.mp inside
  rw [← text]
  exact ⟨by simpa using line, (chomp_cases s).imp Eq.symm id⟩

theorem length_of_enclosed {q : UInt8} {s m : Bytes} (found : enclosed q s = some m) :
    m.length + 2 ≤ s.length := by
  rcases (enclosed_cases found).2 with text | text <;> rw [text] <;> simp

theorem count_enclosed {q : UInt8} (quote : q ≠ newline) {s m : Bytes} (found : enclosed q s = some m) :
    s.count q = m.count q + 2 := by
  rcases (enclosed_cases found).2 with text | text <;> rw [text] <;> simp [quote.symm]

theorem count_enclosed_other {q r : UInt8} (differ : r ≠ q) (inert : r ≠ newline) {s m : Bytes}
    (found : enclosed q s = some m) : s.count r = m.count r := by
  rcases (enclosed_cases found).2 with text | text <;> rw [text] <;> simp [differ.symm, inert.symm]

theorem enclosed_none_of_not_mem {q : UInt8} {s : Bytes} (free : q ∉ s) : enclosed q s = none := by
  cases found : enclosed q s with
  | none => rfl
  | some m =>
    rcases (enclosed_cases found).2 with text | text <;> simp [text] at free

theorem stripped_of_not_mem {s : Bytes} (free : squote ∉ s) : stripped s = s := by
  rw [stripped, enclosed_none_of_not_mem free, Option.getD_none]

theorem wrapped_escape (s : Bytes) : wrapped dquote (escape s) = (wrapped dquote s).map escape := by
  cases s with
  | nil => rfl
  | cons c rest =>
    rw [escape_cons]
    by_cases quote : c = squote
    · simp [wrapped, quote, Ne.symm dquote_ne_squote]
    · simp only [if_neg quote, List.singleton_append, wrapped, getLast?_escape]
      split
      · rename_i both
        have last : rest.getLast? ≠ some squote := by simp [both.2]
        rw [dropLast_escape last, Option.map_some]
      · rfl

theorem chomp_escape (s : Bytes) : chomp (escape s) = escape (chomp s) := by
  unfold chomp
  rw [getLast?_escape]
  split
  · rename_i ended
    have last : s.getLast? ≠ some squote := by simp [ended]
    exact dropLast_escape last
  · rfl

theorem enclosed_escape (s : Bytes) : enclosed dquote (escape s) = (enclosed dquote s).map escape := by
  have inert : newline ≠ backslash := by decide
  unfold enclosed
  rw [chomp_escape, wrapped_escape]
  cases wrapped dquote (chomp s) with
  | none => rfl
  | some m => simp [Option.filter, mem_escape m inert, apply_ite]

/-- An escaped text looks quoted. -/
def SquoteEnded (s : Bytes) : Prop :=
  newline ∉ chomp s ∧ (chomp s).head? = some squote ∧ (chomp s).getLast? = some squote

theorem mem_enclosed_iff {q c : UInt8} {s m : Bytes} (other : c ≠ q) (found : wrapped q s = some m) :
    c ∈ m ↔ c ∈ s := by
  simp [wrapped_eq_some.mp found, other]

theorem wrapped_squote_escape (s : Bytes) :
    (wrapped squote (escape s)).isSome ↔ s.head? = some squote ∧ s.getLast? = some squote := by
  cases s with
  | nil => simp [wrapped]
  | cons c t =>
    rw [escape_cons]
    by_cases quote : c = squote
    · subst quote
      have last := getLast?_escape (squote :: t)
      rw [escape_cons, if_pos rfl, List.cons_append, List.getLast?_cons_of_ne_nil (by simp)] at last
      rw [if_pos rfl, List.cons_append, wrapped, last, Option.isSome_ite]
      simp
    · simp [quote, wrapped]

theorem enclosed_squote_escape (s : Bytes) : (enclosed squote (escape s)).isSome ↔ SquoteEnded s := by
  have inert : newline ≠ backslash := by decide
  unfold enclosed SquoteEnded
  rw [chomp_escape, ← wrapped_squote_escape, ← mem_escape (chomp s) inert]
  cases found : wrapped squote (escape (chomp s)) with
  | none => simp
  | some m => simp [Option.isSome_filter, mem_enclosed_iff newline_ne_squote found]

/-- What the shell makes of a component that it reads as a word. -/
def shown (component : Bytes) : Bytes := (enclosed dquote (stripped component)).getD (stripped component)

theorem commandWords_squoted_escape (s : Bytes) : commandWords (squoted (escape s)) = some [s] := by
  have reads := readsQuotes_words commandBlank commandBlank_squote commandBlank_backslash
  have read := reads.squoted_escape none s []
  rw [List.append_nil] at read
  rw [commandWords, read]
  rfl

/-- A text that begins with a quote and is escaped ends inside quotes. -/
theorem commandWords_escape_ended {s : Bytes} (ended : SquoteEnded s) : commandWords (escape s) = none := by
  have first : s.head? = some squote := by
    have head := ended.2.1
    unfold chomp at head
    split at head
    · rw [List.head?_dropLast] at head
      split at head
      · exact head
      · cases head
    · exact head
  obtain ⟨t, rfl⟩ : ∃ t, s = squote :: t := ⟨s.tail, by simpa using (List.cons_head?_tail first).symm⟩
  have split : escape (squote :: t) = squote :: ([backslash, squote, squote] ++ escape t) := by
    rw [escape_cons, if_pos rfl, List.cons_append]
  have inert : backslash ≠ squote := by decide
  rw [commandWords, split, readWords_bare_squote _ commandBlank_squote]
  show readWords commandBlank .single _ (backslash :: squote :: squote :: escape t) = none
  rw [readWords_single_other _ inert, readWords_single_squote,
    readWords_bare_squote _ commandBlank_squote]
  exact readWords_single_escape_end _ commandBlank_squote commandBlank_backslash _ _

theorem commandWords_singleQuote (component : Bytes) :
    commandWords (singleQuote component) =
      if (enclosed squote (escape (stripped component))).isSome then none else some [shown component] := by
  unfold singleQuote shown
  by_cases looks : (enclosed squote (escape (stripped component))).isSome
  · simp only [if_pos looks]
    exact commandWords_escape_ended ((enclosed_squote_escape _).mp looks)
  · simp only [if_neg looks, enclosed_escape]
    cases enclosed dquote (stripped component) with
    | none => exact commandWords_squoted_escape (stripped component)
    | some m => exact commandWords_squoted_escape m

theorem commandWords_singleQuote_iff (component w : Bytes) :
    commandWords (singleQuote component) = some [w] ↔
      ¬ SquoteEnded (stripped component) ∧ shown component = w := by
  rw [commandWords_singleQuote, ← enclosed_squote_escape]
  split
  · rename_i looks
    simp [looks]
  · rename_i free
    simp [free]

theorem getD_eq_self {q : UInt8} {s : Bytes} : (enclosed q s).getD s = s ↔ enclosed q s = none := by
  cases found : enclosed q s with
  | none => simp
  | some m =>
    have shorter := length_of_enclosed found
    simp only [Option.getD_some, reduceCtorEq, iff_false]
    intro same
    rw [same] at shorter
    omega

theorem enclosed_of_wrapped {q : UInt8} {s m : Bytes} (quote : q ≠ newline) (found : wrapped q s = some m) :
    enclosed q s = if newline ∈ m then none else some m := by
  rw [enclosed, chomp_of_wrapped quote found, found, Option.filter]
  simp

theorem wrapped_other {q r : UInt8} (differ : q ≠ r) {s m : Bytes} (found : wrapped q s = some m) :
    wrapped r s = none := by
  rw [wrapped_eq_some.mp found]
  simp [wrapped, differ]

theorem enclosed_other {q r : UInt8} (quote : q ≠ newline) (differ : q ≠ r) {s m : Bytes}
    (found : wrapped q s = some m) : enclosed r s = none := by
  rw [enclosed, chomp_of_wrapped quote found, wrapped_other differ found]
  rfl

theorem chomp_of_line {s : Bytes} (line : newline ∉ s) : chomp s = s :=
  chomp_of_not_ended fun last => line (List.mem_of_getLast? last)

theorem not_ended_of_wrapped {q : UInt8} (quote : q ≠ newline) {s m : Bytes} (found : wrapped q s = some m)
    (t : Bytes) : s ≠ t ++ [newline] := by
  intro ended
  rw [ended] at found
  have whole := chomp_of_wrapped quote found
  rw [chomp_ended] at whole
  exact absurd (congrArg List.length whole) (by simp)

/-- Of a component in quotes only what is inside matters. -/
theorem quotable_of_wrapped {q : UInt8} (quote : q ≠ newline) {component m : Bytes}
    (found : wrapped q component = some m)
    (single : ∀ m ∈ wrapped squote component,
      newline ∉ m ∧ ¬ (m.head? = some squote ∧ m.getLast? = some squote) ∧ wrapped dquote m = none)
    (double : ∀ m ∈ wrapped dquote component, newline ∉ m) : Quotable component where
  single := single
  double := double
  ended s ended := absurd ended (not_ended_of_wrapped quote found s)
  more := by
    have longer := length_of_wrapped found
    refine ⟨?_, not_ended_of_wrapped quote found [squote]⟩
    rintro rfl
    simp at longer

theorem commandWords_single {component m : Bytes} (found : wrapped squote component = some m) :
    commandWords (singleQuote component) = some [unwrapped component] ↔ Quotable component := by
  have quote : squote ≠ newline := Ne.symm newline_ne_squote
  have inside : unwrapped component = m := by simp [unwrapped, found]
  have longer := length_of_wrapped found
  rw [commandWords_singleQuote_iff, inside, shown, stripped, enclosed_of_wrapped quote found]
  constructor
  · rintro ⟨free, same⟩
    have line : newline ∉ m := by
      intro broken
      rw [if_pos broken, Option.getD_none, enclosed_other quote (Ne.symm dquote_ne_squote) found,
        Option.getD_none] at same
      rw [same] at longer
      omega
    have whole := chomp_of_line line
    rw [if_neg line, Option.getD_some] at free same
    rw [getD_eq_self, enclosed, whole, Option.filter_eq_none_iff] at same
    apply quotable_of_wrapped quote found
    · intro k again
      obtain rfl := Option.some.inj (found.symm.trans again)
      refine ⟨line, fun ends => free ?_, ?_⟩
      · rw [SquoteEnded, whole]
        exact ⟨line, ends⟩
      · rw [Option.eq_none_iff_forall_ne_some]
        intro k nested
        have broken := same k nested
        rw [decide_eq_true_eq, not_not, mem_enclosed_iff (by decide) nested] at broken
        exact line broken
    · intro k double
      rw [wrapped_other (Ne.symm dquote_ne_squote) found] at double
      cases double
  · intro quotable
    obtain ⟨line, ends, nested⟩ := quotable.single m found
    have whole := chomp_of_line line
    rw [if_neg line, Option.getD_some, getD_eq_self, enclosed, whole, nested]
    refine ⟨fun ended => ends ?_, rfl⟩
    rw [← whole]
    exact ended.2

theorem commandWords_double {component m : Bytes} (found : wrapped dquote component = some m) :
    commandWords (singleQuote component) = some [unwrapped component] ↔ Quotable component := by
  have quote : dquote ≠ newline := by decide
  have outer := wrapped_other dquote_ne_squote found
  have inside : unwrapped component = m := by simp [unwrapped, found, outer]
  have longer := length_of_wrapped found
  have free : ¬ SquoteEnded component := by
    rintro ⟨-, first, -⟩
    rw [chomp_of_wrapped quote found, wrapped_eq_some.mp found] at first
    simp at first
  rw [commandWords_singleQuote_iff, inside, shown, stripped, enclosed_other quote dquote_ne_squote found,
    Option.getD_none, enclosed_of_wrapped quote found]
  constructor
  · rintro ⟨-, same⟩
    apply quotable_of_wrapped quote found
    · intro k single
      rw [outer] at single
      cases single
    · intro k again broken
      obtain rfl := Option.some.inj (found.symm.trans again)
      rw [if_pos broken, Option.getD_none] at same
      rw [same] at longer
      omega
  · intro quotable
    rw [if_neg (quotable.double m found)]
    exact ⟨free, rfl⟩

/-- A text that looks quoted once escaped, and has no quotes to lose, is a quote alone. -/
theorem squoteEnded_iff {s : Bytes} (bare : enclosed squote s = none) :
    SquoteEnded s ↔ s = [squote] ∨ s = [squote, newline] := by
  constructor
  · rintro ⟨line, first, last⟩
    have alone : chomp s = [squote] := by
      obtain ⟨rest, text⟩ : ∃ rest, chomp s = squote :: rest := by
        cases split : chomp s with
        | nil => simp [split] at first
        | cons c rest => simpa [split] using first
      cases rest with
      | nil => exact text
      | cons c rest =>
        rw [text, List.getLast?_cons_of_ne_nil (List.cons_ne_nil c rest)] at last
        have found : wrapped squote (chomp s) = some (c :: rest).dropLast := by
          rw [text, wrapped, last]
          simp
        have inner : newline ∉ (c :: rest).dropLast := by
          rw [mem_enclosed_iff newline_ne_squote found]
          exact line
        rw [enclosed, found] at bare
        simp [Option.filter, inner] at bare
    rcases chomp_cases s with whole | ended
    · exact .inl (whole.symm.trans alone)
    · rw [alone] at ended
      exact .inr ended
  · rintro (rfl | rfl)
    · exact ⟨by decide, rfl, rfl⟩
    · exact ⟨by decide, rfl, rfl⟩

theorem enclosed_eq_none_iff {q : UInt8} {s : Bytes} (bare : wrapped q s = none) :
    enclosed q s = none ↔ ∀ t, s = t ++ [newline] → ∀ m ∈ wrapped q t, newline ∈ m := by
  rw [enclosed, Option.filter_eq_none_iff]
  constructor
  · rintro lacking t rfl m found
    rw [chomp_ended] at lacking
    simpa using lacking m found
  · intro ended m found
    rcases chomp_cases s with whole | text
    · rw [whole, bare] at found
      cases found
    · simpa using ended (chomp s) text m found

theorem shown_eq_self_iff {component : Bytes} :
    shown component = component ↔ enclosed squote component = none ∧ enclosed dquote component = none := by
  unfold shown stripped
  cases found : enclosed squote component with
  | none => simpa using getD_eq_self
  | some m =>
    have shorter := length_of_enclosed found
    simp only [Option.getD_some, reduceCtorEq, false_and, iff_false]
    intro same
    cases again : enclosed dquote m with
    | none =>
      rw [again, Option.getD_none] at same
      rw [same] at shorter
      omega
    | some k =>
      have shortest := length_of_enclosed again
      rw [again, Option.getD_some] at same
      rw [same] at shortest
      omega

theorem commandWords_neither {component : Bytes} (single : wrapped squote component = none)
    (double : wrapped dquote component = none) :
    commandWords (singleQuote component) = some [unwrapped component] ↔ Quotable component := by
  have inside : unwrapped component = component := by simp [unwrapped, single, double]
  rw [commandWords_singleQuote_iff, inside, shown_eq_self_iff]
  constructor
  · rintro ⟨free, bareSingle, bareDouble⟩
    rw [stripped, bareSingle, Option.getD_none, squoteEnded_iff bareSingle, not_or] at free
    rw [enclosed_eq_none_iff single] at bareSingle
    rw [enclosed_eq_none_iff double] at bareDouble
    apply Quotable.mk
    · simp [single]
    · simp [double]
    · intro s ended q quote
      rcases List.mem_pair.mp quote with rfl | rfl
      · exact bareSingle s ended
      · exact bareDouble s ended
    · exact free
  · intro quotable
    have bareSingle : enclosed squote component = none := by
      rw [enclosed_eq_none_iff single]
      intro s ended
      exact quotable.ended s ended squote (by simp)
    have bareDouble : enclosed dquote component = none := by
      rw [enclosed_eq_none_iff double]
      intro s ended
      exact quotable.ended s ended dquote (by simp)
    rw [stripped, bareSingle, Option.getD_none, squoteEnded_iff bareSingle, not_or]
    exact ⟨quotable.more, rfl, bareDouble⟩

theorem commandWords_singleQuote_unwrapped (component : Bytes) :
    commandWords (singleQuote component) = some [unwrapped component] ↔ Quotable component := by
  cases single : wrapped squote component with
  | some m => exact commandWords_single single
  | none =>
    cases double : wrapped dquote component with
    | some m => exact commandWords_double double
    | none => exact commandWords_neither single double

/-- Each string `applySingleQuote` returns is one word, the component less its enclosing quotes. -/
theorem applySingleQuote_words_iff (components : List Bytes) :
    (applySingleQuote components).map commandWords = components.map (fun c => some [unwrapped c]) ↔
      ∀ component ∈ components, Quotable component := by
  rw [applySingleQuote, List.map_map, List.map_inj_left]
  apply forall₂_congr
  intro component _
  exact commandWords_singleQuote_unwrapped component

example : [str "a'b", str "'a'", str "\"'\"", str ""].map (commandWords ∘ singleQuote) =
    [some [str "a'b"], some [str "a"], some [str "'"], some [[]]] := by decide

theorem single_quote_misread :
    applySingleQuote [str "'"] = [str "'\\''"] ∧
      (applySingleQuote [str "'"]).map commandWords ≠ [str "'"].map fun component => some [unwrapped component] := by
  decide

end VyattaCfg.Perl
