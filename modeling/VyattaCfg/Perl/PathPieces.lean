import VyattaCfg.Perl.ApplySingleQuote
import VyattaCfg.Library.ShellReading

namespace VyattaCfg.Perl

open ByteString Shell

/-- What `s/'//g` leaves of an escaped text. -/
def backslashed (s : Bytes) : Bytes := s.map fun c => if c = squote then backslash else c

/-- A component that the script prints without quotes and the shell still reads as it should: a
    plain word, or one in double quotes that broke over a line and so kept them. -/
def PathPlain (component : Bytes) : Prop :=
  PlainWord (unwrapped component) ∨ ∃ m ∈ wrapped dquote component, newline ∈ m ∧ dquoteInert m

/-- How what is shown of a component differs from the component less its quotes. -/
inductive Shape (component : Bytes) : Prop
  | same : shown component = unwrapped component → Shape component
  | twice (m : Bytes) : shown component = m → unwrapped component = dquoted m → Shape component
  | single (m : Bytes) : newline ∈ m → shown component = squoted m → unwrapped component = m → Shape component
  | double (m : Bytes) : newline ∈ m → component = dquoted m → shown component = dquoted m →
      unwrapped component = m → Shape component
  | fewer : (shown component).countP seam < (unwrapped component).countP seam → Shape component

theorem wrapped_dquoted (m : Bytes) : wrapped dquote (dquoted m) = some m := wrapped_eq_some.mpr rfl

theorem seams_enclosed {q : UInt8} {s m : Bytes} (found : enclosed q s = some m) :
    m.countP seam ≤ s.countP seam := by
  have quoted : m.Sublist (q :: (m ++ [q])) := (List.sublist_append_left m [q]).cons q
  rcases (enclosed_cases found).2 with text | text
  · rw [text]
    exact quoted.countP_le
  · rw [text]
    exact (quoted.trans (List.sublist_append_left _ _)).countP_le

theorem seams_shown_stripped (component : Bytes) :
    (shown component).countP seam ≤ (stripped component).countP seam := by
  unfold shown
  cases found : enclosed dquote (stripped component) with
  | none => exact Nat.le_refl _
  | some m => exact seams_enclosed found

/-- A newline behind the closing quote is lost with the quotes. -/
theorem seams_ended {q : UInt8} {s m : Bytes} (bare : wrapped q s = none) (found : enclosed q s = some m) :
    m.countP seam < s.countP seam := by
  have inside := (Option.filter_eq_some_iff.mp found).1
  rcases chomp_cases s with whole | ended
  · rw [whole, bare] at inside
    cases inside
  · rw [ended, wrapped_eq_some.mp inside]
    simp only [List.countP_append, List.countP_cons, List.countP_nil, seam_newline, if_true]
    omega

theorem shape_neither {component : Bytes} (single : wrapped squote component = none)
    (double : wrapped dquote component = none) : Shape component := by
  have inside : unwrapped component = component := by simp [unwrapped, single, double]
  cases bareSingle : enclosed squote component with
  | some m =>
    apply Shape.fewer
    have strip : stripped component = m := by simp [stripped, bareSingle]
    have kept := seams_shown_stripped component
    rw [strip] at kept
    rw [inside]
    exact Nat.lt_of_le_of_lt kept (seams_ended single bareSingle)
  | none =>
    have strip : stripped component = component := by simp [stripped, bareSingle]
    cases bareDouble : enclosed dquote component with
    | some m =>
      apply Shape.fewer
      rw [inside, shown, strip, bareDouble]
      exact seams_ended double bareDouble
    | none => exact .same ((shown_eq_self_iff.mpr ⟨bareSingle, bareDouble⟩).trans inside.symm)

theorem shape (component : Bytes) : Shape component := by
  cases single : wrapped squote component with
  | some m =>
    have quote : squote ≠ newline := Ne.symm newline_ne_squote
    have inside : unwrapped component = m := by simp [unwrapped, single]
    have strip : stripped component = if newline ∈ m then component else m := by
      rw [stripped, enclosed_of_wrapped quote single]
      split <;> rfl
    by_cases line : newline ∈ m
    · rw [if_pos line] at strip
      apply Shape.single m line _ inside
      rw [shown, strip, enclosed_other quote (Ne.symm dquote_ne_squote) single]
      exact wrapped_eq_some.mp single
    · rw [if_neg line] at strip
      cases again : enclosed dquote m with
      | none =>
        apply Shape.same
        rw [shown, strip, again, inside]
        rfl
      | some k =>
        apply Shape.twice k
        · rw [shown, strip, again]
          rfl
        · have found := (Option.filter_eq_some_iff.mp again).1
          rw [chomp_of_line line] at found
          rw [inside]
          exact wrapped_eq_some.mp found
  | none =>
    cases double : wrapped dquote component with
    | some m =>
      have quote : dquote ≠ newline := by decide
      have inside : unwrapped component = m := by simp [unwrapped, single, double]
      have strip : stripped component = component := by
        rw [stripped, enclosed_other quote dquote_ne_squote double]
        rfl
      by_cases line : newline ∈ m
      · apply Shape.double m line (wrapped_eq_some.mp double) _ inside
        rw [shown, strip, enclosed_of_wrapped quote double, if_pos line]
        exact wrapped_eq_some.mp double
      · apply Shape.same
        rw [shown, strip, enclosed_of_wrapped quote double, if_neg line, inside]
        rfl
    | none => exact shape_neither single double

theorem seams_shown_le (component : Bytes) :
    (shown component).countP seam ≤ (unwrapped component).countP seam := by
  cases shape component with
  | same same => rw [same]
  | twice m shows wraps =>
    rw [shows, wraps]
    simp [dquoted]
  | single m _ shows wraps =>
    rw [shows, wraps]
    simp [squoted]
  | double m _ _ shows wraps =>
    rw [shows, wraps]
    simp [dquoted]
  | fewer fewer => exact Nat.le_of_lt fewer

theorem filter_escape (s : Bytes) : (escape s).filter (· ≠ squote) = backslashed s := by
  induction s with
  | nil => rfl
  | cons c s ih =>
    rw [escape_cons, List.filter_append, ih]
    by_cases quote : c = squote
    · simp [quote, backslashed]
    · simp [quote, backslashed]

theorem filter_squoted (s : Bytes) : (squoted s).filter (· ≠ squote) = s.filter (· ≠ squote) := by
  simp [squoted, List.filter_append]

/-- Without its single quotes a quoted component is what the shell would have made of it, with a
    backslash for each single quote. -/
theorem filter_singleQuote (component : Bytes) :
    (singleQuote component).filter (· ≠ squote) = backslashed (shown component) := by
  unfold singleQuote shown
  by_cases looks : (enclosed squote (escape (stripped component))).isSome
  · have ended := (enclosed_squote_escape _).mp looks
    have bare : enclosed dquote (stripped component) = none := by
      obtain ⟨rest, first⟩ : ∃ rest, chomp (stripped component) = squote :: rest :=
        ⟨_, List.eq_cons_of_mem_head? ended.2.1⟩
      simp [enclosed, first, wrapped, Ne.symm dquote_ne_squote]
    simp only [if_pos looks, bare, Option.getD_none]
    exact filter_escape (stripped component)
  · simp only [if_neg looks, enclosed_escape]
    cases enclosed dquote (stripped component) with
    | none => exact (filter_squoted _).trans (filter_escape (stripped component))
    | some m => exact (filter_squoted _).trans (filter_escape m)

theorem length_backslashed (s : Bytes) : (backslashed s).length = s.length := List.length_map _

theorem squote_not_mem_backslashed (s : Bytes) : squote ∉ backslashed s := by
  intro member
  obtain ⟨c, -, same⟩ := List.mem_map.mp member
  split at same
  · exact absurd same backslash_ne_squote
  · contradiction

theorem seams_backslashed (s : Bytes) : (backslashed s).countP seam = s.countP seam := by
  rw [backslashed, List.countP_map]
  apply List.countP_congr
  intro c _
  by_cases quote : c = squote <;> simp [quote]

theorem backslashed_of_unquoted {s : Bytes} (plain : squote ∉ s) : backslashed s = s := by
  have kept : ∀ c ∈ s, (if c = squote then backslash else c) = c := by
    intro c member
    exact if_neg (fun same : c = squote => plain (same ▸ member))
  exact (List.map_congr_left kept).trans (List.map_id' s)

/-- Where a blank stands in a word behind a beginning without one. -/
theorem blank_behind {x s rest : Bytes} {k : Nat} {b : UInt8} (found : (x ++ s ++ rest)[k]? = some b)
    (isBlank : commandBlank b = true) (unblank : ∀ c ∈ s, commandBlank c = false) (after : x.length ≤ k) :
    x.length + s.length ≤ k := by
  by_contra inside
  rw [List.append_assoc, List.getElem?_append_right after, List.getElem?_append_left (by omega)] at found
  have unblanked := unblank b (List.mem_of_getElem? found)
  rw [isBlank] at unblanked
  cases unblanked

theorem blank_backslashed {s : Bytes} (unblank : ∀ c ∈ s, commandBlank c = false) :
    ∀ c ∈ backslashed s, commandBlank c = false := by
  intro c member
  obtain ⟨d, inside, rfl⟩ := List.mem_map.mp member
  split
  · exact commandBlank_backslash
  · exact unblank d inside

theorem split_at_blank (t : Bytes) :
    (∀ c ∈ t, commandBlank c = false) ∨
      ∃ h b left, t = h ++ b :: left ∧ (∀ c ∈ h, commandBlank c = false) ∧ commandBlank b = true := by
  induction t with
  | nil => simp
  | cons c t ih =>
    cases here : commandBlank c with
    | true => exact .inr ⟨[], c, t, rfl, by simp, here⟩
    | false =>
      rcases ih with unblank | ⟨h, b, left, rfl, unblank, isBlank⟩
      · exact .inl (List.forall_mem_cons.mpr ⟨here, unblank⟩)
      · exact .inr ⟨c :: h, b, left, rfl, List.forall_mem_cons.mpr ⟨here, unblank⟩, isBlank⟩

theorem commandBlank_space : commandBlank space = true := by decide

/-- The text has to make up for the bytes `g` and `z` of the word that it lacks, and has only `y` to
    do so. A blank would be read too early, so there is none, and the piece is copied as it is. -/
theorem piece_copied {quoting : Quoting} {x g t z y rest : Bytes} {words : List Bytes}
    (read : readWords commandBlank quoting (some x) (backslashed t ++ y ++ space :: rest) =
      some ((x ++ g ++ t ++ z) :: words))
    (unblankG : ∀ c ∈ g, commandBlank c = false) (unblankZ : ∀ c ∈ z, commandBlank c = false)
    (unblankY : ∀ c ∈ y, commandBlank c = false) (unquoted : squote ∉ y) (open_ : quoting ≠ .single)
    (small : y.length ≤ g.length + z.length ∨
      (quoting = .bare ∧ newline ∈ t ∧ y.length ≤ g.length + z.length + 1))
    (lag : g ≠ [] ∨ quoting = .bare) :
    quoting = .bare ∧ (backslashed t ++ y).all plainByte ∧ g ++ t ++ z = backslashed t ++ y ∧
      readWords commandBlank .bare none rest = some words := by
  rcases split_at_blank t with unblankT | ⟨h, b, left, rfl, unblankH, isBlank⟩
  · have unblank : ∀ c ∈ backslashed t ++ y, commandBlank c = false :=
      List.forall_mem_append.mpr ⟨blank_backslashed unblankT, unblankY⟩
    have noSquote : squote ∉ backslashed t ++ y := by simp [squote_not_mem_backslashed, unquoted]
    rcases readWords_piece commandBlank_space (solid_of_not_mem unblank noSquote) open_ read with
      ⟨bare, plain, same, later⟩ | ⟨short, ends⟩ | ⟨k, after, -, -, found⟩
    · have inside : g ++ t ++ z = backslashed t ++ y := by simpa using same
      exact ⟨bare, plain, inside, later⟩
    · simp only [List.length_append, length_backslashed] at short ends
      rcases small with small | ⟨bare, broken, small⟩
      · omega
      · have inside : newline ∈ backslashed t ++ y := by
          have kept : newline ∈ backslashed t := List.mem_map.mpr ⟨newline, broken, if_neg newline_ne_squote⟩
          exact List.mem_append_left y kept
        have two := ends bare inside
        omega
    · have unblankW : ∀ c ∈ g ++ t ++ z, commandBlank c = false :=
        List.forall_mem_append.mpr ⟨List.forall_mem_append.mpr ⟨unblankG, unblankT⟩, unblankZ⟩
      have word : x ++ g ++ t ++ z = x ++ (g ++ t ++ z) ++ [] := by simp
      have within := (List.getElem?_eq_some_iff.mp found).1
      rw [word] at found within
      have behind := blank_behind found commandBlank_space unblankW after
      simp only [List.length_append, List.length_nil] at behind within
      omega
  · have text : backslashed (h ++ b :: left) ++ y ++ space :: rest =
        backslashed h ++ b :: (backslashed left ++ y ++ space :: rest) := by
      have kept := (blank_inert isBlank).2.1
      simp [backslashed, kept]
    rw [text] at read
    exfalso
    have solid := solid_of_not_mem (blank_backslashed unblankH) (squote_not_mem_backslashed h)
    rcases readWords_piece isBlank solid open_ read with
      ⟨-, -, same, -⟩ | ⟨short, -⟩ | ⟨k, after, before, strict, found⟩
    · have lengths := congrArg List.length same
      simp only [List.length_append, List.length_cons, length_backslashed] at lengths
      omega
    · simp only [List.length_append, List.length_cons, length_backslashed] at short
      omega
    · have unblankW : ∀ c ∈ g ++ h, commandBlank c = false :=
        List.forall_mem_append.mpr ⟨unblankG, unblankH⟩
      have word : x ++ g ++ (h ++ b :: left) ++ z = x ++ (g ++ h) ++ (b :: left ++ z) := by simp
      rw [word] at found
      have behind := blank_behind found isBlank unblankW after
      simp only [List.length_append, length_backslashed] at behind before strict
      rcases lag with filled | bare
      · have positive := List.length_pos_of_ne_nil filled
        omega
      · have less := strict bare
        omega

theorem first_copied {x t : Bytes} {a b : UInt8} (copied : x ++ [a] <+: x ++ b :: t) : a = b := by
  have next := (List.prefix_append_right_inj x).mp copied
  exact (List.cons_prefix_cons.mp next).1

/-- A word that lacks bytes of the text inside quotes cannot end at the closing one. -/
theorem not_lacking {quoting : Quoting} {x g t rest : Bytes} {words : List Bytes} (filled : g ≠ [])
    (unblank : ∀ c ∈ g, commandBlank c = false) (open_ : quoting ≠ .single) :
    readWords commandBlank quoting (some x) (backslashed t ++ dquote :: space :: rest) ≠
      some ((x ++ g ++ t) :: words) := by
  intro read
  have positive : 1 ≤ g.length := List.length_pos_of_ne_nil filled
  have copied := piece_copied (z := []) (y := [dquote]) (by simpa using read) unblank (by simp)
    (List.forall_mem_singleton.mpr commandBlank_dquote) (by decide) open_ (.inl (by simpa using positive)) (.inl filled)
  have plain := List.all_eq_true.mp copied.2.1 dquote (by simp)
  exact absurd plain (by decide)

theorem unblank_of_escaped {f : UInt8} (escaped : dquoteEscaped (if f = squote then backslash else f)) :
    commandBlank f = false := by
  split at escaped
  · rename_i quote
    rw [quote]
    exact commandBlank_squote
  · cases isBlank : commandBlank f with
    | false => rfl
    | true =>
      rw [(blank_inert isBlank).2.2.2.2] at escaped
      cases escaped

/-- A backslash that is printed between the kept quotes, and the byte behind it. -/
theorem inert_of_backslash {x t rest : Bytes} {e f : UInt8} {words : List Bytes} (mark : e = squote ∨ e = backslash)
    (read : readWords commandBlank .double (some x)
      (backslash :: (if f = squote then backslash else f) :: (backslashed t ++ dquote :: space :: rest)) =
      some ((x ++ e :: f :: t) :: words)) :
    e = backslash ∧ f ≠ newline ∧ dquoteEscaped f = false ∧
      readWords commandBlank .double (some (x ++ [e])) (backslashed (f :: t) ++ dquote :: space :: rest) =
        some ((x ++ [e] ++ f :: t) :: words) := by
  have unblankE : commandBlank e = false := by
    rcases mark with rfl | rfl
    · exact commandBlank_squote
    · exact commandBlank_backslash
  by_cases joined : (if f = squote then backslash else f) = newline
  · have same : f = newline := by
      split at joined
      · exact absurd joined (by decide)
      · exact joined
    rw [joined, readWords_double_joined] at read
    have word : x ++ e :: f :: t = x ++ [e, f] ++ t := by simp
    have unblankF : commandBlank f = false := by
      rw [same]
      decide
    rw [word] at read
    exact absurd read (not_lacking (List.cons_ne_nil e [f]) (by simp [unblankE, unblankF]) (by simp))
  · cases escaped : dquoteEscaped (if f = squote then backslash else f) with
    | true =>
      rw [readWords_double_escaped joined escaped] at read
      have first := first_copied (first_begun read)
      rw [first] at read
      have word : x ++ e :: f :: t = x ++ [e] ++ [f] ++ t := by simp
      rw [word] at read
      exact absurd read (not_lacking (List.cons_ne_nil f []) (by simpa using unblank_of_escaped escaped) (by simp))
    | false =>
      rw [readWords_double_backslash joined escaped] at read
      have first := (List.prefix_append_right_inj x).mp (first_begun read)
      rw [List.cons_prefix_cons, List.cons_prefix_cons] at first
      obtain ⟨rfl, kept, -⟩ := first
      rw [kept] at read joined escaped
      obtain ⟨notDollar, notTick, notDquote, notBackslash⟩ := not_dquoteEscaped.mp escaped
      refine ⟨rfl, joined, escaped, ?_⟩
      have text : backslashed (f :: t) = f :: backslashed t := by rw [backslashed, List.map_cons, kept, backslashed]
      rw [text, List.cons_append, readWords_double_other notDquote notBackslash ⟨notDollar, notTick⟩]
      simpa using read

/-- Between the double quotes that a component kept, the word must be copied byte by byte. -/
theorem inert_of_double {x t rest : Bytes} {words : List Bytes}
    (read : readWords commandBlank .double (some x) (backslashed t ++ dquote :: space :: rest) =
      some ((x ++ t) :: words)) :
    dquoteInert t ∧ readWords commandBlank .bare none rest = some words := by
  induction t generalizing x with
  | nil =>
    rw [backslashed, List.map_nil, List.nil_append, readWords_double_dquote,
      readWords_bare_blank commandBlank commandBlank_space] at read
    refine ⟨rfl, ?_⟩
    simpa using read
  | cons e t ih =>
    have text : backslashed (e :: t) = (if e = squote then backslash else e) :: backslashed t := rfl
    rw [text, List.cons_append] at read
    by_cases mark : e = squote ∨ e = backslash
    · have byte : (if e = squote then backslash else e) = backslash := by
        rcases mark with rfl | rfl <;> simp
      rw [byte] at read
      cases t with
      | nil =>
        have shown : dquote ≠ newline := by decide
        rw [backslashed, List.map_nil, List.nil_append, readWords_double_escaped shown (by decide)] at read
        have same := first_copied (first_begun read)
        rcases mark with rfl | rfl
        · exact absurd same (by decide)
        · exact absurd same (by decide)
      | cons f t =>
        obtain ⟨rfl, shown, plain, later⟩ := inert_of_backslash mark read
        obtain ⟨inert, ends⟩ := ih later
        refine ⟨?_, ends⟩
        rw [dquoteInert_cons]
        exact ⟨by decide, fun _ => ⟨f, rfl, shown, plain⟩, inert⟩
    · obtain ⟨notSquote, notBackslash⟩ := not_or.mp mark
      rw [if_neg notSquote] at read
      have word : x ++ e :: t = x ++ [e] ++ t := by simp
      rw [word] at read
      by_cases quote : e = dquote
      · rw [quote, readWords_double_dquote] at read
        exact absurd read (not_lacking (List.cons_ne_nil dquote [])
          (List.forall_mem_singleton.mpr commandBlank_dquote) (by simp))
      · by_cases quiet : e ≠ ch '$' ∧ e ≠ ch '`'
        · rw [readWords_double_other quote notBackslash quiet] at read
          obtain ⟨inert, ends⟩ := ih read
          refine ⟨?_, ends⟩
          rw [dquoteInert_cons]
          exact ⟨⟨notSquote, quote, quiet⟩, fun same => absurd same notBackslash, inert⟩
        · have expands : e = ch '$' ∨ e = ch '`' := by
            by_contra neither
            exact quiet (not_or.mp neither)
          rw [readWords_double_expands expands] at read
          cases read

/-- No seam of the printed text is to spare. -/
theorem seams_enough {component text rest : Bytes} {words : List Bytes}
    (read : readWords commandBlank .bare none text = some (unwrapped component :: words))
    (budget : rest.countP seam + 1 ≤ words.length + words.flatten.countP seam) :
    (backslashed (shown component)).countP seam + rest.countP seam < text.countP seam := by
  have bound := readWords_seams read
  have kept := seams_shown_le component
  rw [seams_backslashed]
  simp only [List.length_cons, List.flatten_cons, List.countP_append, Option.getD_none, List.countP_nil] at bound
  omega

theorem piece_begun {component rest : Bytes} {words : List Bytes}
    (read : readWords commandBlank .bare none (backslashed (shown component) ++ space :: rest) =
      some (unwrapped component :: words))
    (budget : rest.countP seam + 1 ≤ words.length + words.flatten.countP seam) :
    ∃ c left, backslashed (shown component) = c :: left ∧ c ∉ str "#~" ∧
      (c = backslash → left.head? ≠ some newline) ∧
      readWords commandBlank .bare (some []) (c :: left ++ space :: rest) = some (unwrapped component :: words) := by
  have spaceSeam : seam space = true := by decide
  cases split : backslashed (shown component) with
  | nil =>
    rw [split, List.nil_append, readWords_bare_blank commandBlank commandBlank_space] at read
    obtain ⟨later, found, rfl⟩ := Option.map_eq_some_iff.mp read
    have enough := seams_enough found budget
    rw [split] at enough
    simp at enough
  | cons c left =>
    rw [split, List.cons_append] at read
    cases isBlank : commandBlank c with
    | true =>
      rw [readWords_bare_blank commandBlank isBlank] at read
      obtain ⟨later, found, rfl⟩ := Option.map_eq_some_iff.mp read
      have enough := seams_enough found budget
      rw [split] at enough
      simp only [List.countP_append, List.countP_cons, spaceSeam, seam_of_blank isBlank, if_true] at enough
      omega
    | false =>
      have joined : c = backslash → left.head? ≠ some newline := by
        rintro rfl first
        obtain ⟨tail, rfl⟩ : ∃ tail, left = newline :: tail := ⟨_, List.eq_cons_of_mem_head? first⟩
        rw [List.cons_append, readWords_bare_joined] at read
        have enough := seams_enough read budget
        rw [split] at enough
        simp only [List.countP_append, List.countP_cons, spaceSeam, seam_newline, if_true] at enough
        omega
      have next : c = backslash → (left ++ space :: rest).head? ≠ some newline := by
        intro escape
        cases left with
        | nil =>
          have differs : space ≠ newline := by decide
          simpa using differs
        | cons d left => simpa using joined escape
      obtain ⟨start, begun⟩ := readWords_started isBlank next read
      exact ⟨c, left, rfl, start, joined, begun⟩

theorem not_fewer {component rest : Bytes} {words : List Bytes}
    (read : readWords commandBlank .bare none (backslashed (shown component) ++ space :: rest) =
      some (unwrapped component :: words))
    (budget : rest.countP seam + 1 ≤ words.length + words.flatten.countP seam) :
    (unwrapped component).countP seam ≤ (shown component).countP seam := by
  have bound := readWords_seams read
  have spaceSeam : seam space = true := by decide
  simp only [List.length_cons, List.flatten_cons, List.countP_append, List.countP_cons, spaceSeam, if_true,
    Option.getD_none, List.countP_nil, seams_backslashed] at bound
  omega

theorem backslashed_squoted (m : Bytes) :
    backslashed (squoted m) = backslash :: (backslashed m ++ [backslash]) := by
  simp [squoted, backslashed]

theorem backslashed_dquoted (m : Bytes) : backslashed (dquoted m) = dquote :: (backslashed m ++ [dquote]) := by
  simp [dquoted, backslashed, dquote_ne_squote]

/-- The escaped byte and the backslash at the end leave too little for the newline's quotes. -/
theorem not_single {m rest : Bytes} {words : List Bytes} (line : newline ∈ m)
    (joined : (backslashed m ++ [backslash]).head? ≠ some newline) :
    readWords commandBlank .bare (some []) (backslash :: (backslashed m ++ [backslash]) ++ space :: rest) ≠
      some (m :: words) := by
  intro read
  cases m with
  | nil => cases line
  | cons e m =>
    have shown : (if e = squote then backslash else e) ≠ newline := by simpa [backslashed] using joined
    have text : backslash :: (backslashed (e :: m) ++ [backslash]) ++ space :: rest =
        backslash :: (if e = squote then backslash else e) :: (backslashed m ++ [backslash] ++ space :: rest) := by
      simp [backslashed]
    rw [text, readWords_bare_escaped commandBlank commandBlank_backslash shown, Option.getD_some,
      List.nil_append] at read
    have first := first_begun read
    rw [List.cons_prefix_cons] at first
    rw [first.1] at read shown
    have inside : newline ∈ m := (List.mem_cons.mp line).resolve_left (Ne.symm shown)
    have copied := piece_copied (x := [e]) (g := []) (z := []) (y := [backslash]) (by simpa using read)
      (by simp) (by simp) (List.forall_mem_singleton.mpr commandBlank_backslash) (by decide) (by simp)
      (.inr ⟨rfl, inside, by simp⟩) (.inr rfl)
    have plain := List.all_eq_true.mp copied.2.1 backslash (by simp)
    exact absurd plain (by decide)

/-- A component printed without its single quotes comes out right only if it is plain. -/
theorem piece_plain {component rest : Bytes} {words : List Bytes}
    (read : readWords commandBlank .bare none (backslashed (shown component) ++ space :: rest) =
      some (unwrapped component :: words))
    (budget : rest.countP seam + 1 ≤ words.length + words.flatten.countP seam) :
    PathPlain component ∧ readWords commandBlank .bare none rest = some words := by
  obtain ⟨c, left, split, start, joined, begun⟩ := piece_begun read budget
  rw [← split] at begun
  cases shape component with
  | same same =>
    rw [same] at split begun
    obtain ⟨-, plain, copied, later⟩ := piece_copied (x := []) (g := []) (z := []) (y := [])
      (by simpa using begun) (by simp) (by simp) (by simp) (by simp) (by simp) (by simp) (.inr rfl)
    rw [List.append_nil, List.append_nil, List.nil_append] at copied
    rw [List.append_nil, ← copied] at plain
    rw [← copied] at split
    refine ⟨.inl ⟨?_, plain, ?_⟩, later⟩
    · simp [split]
    · simpa [split] using start
  | twice m shows wraps =>
    rw [shows, wraps] at begun
    have quoteUnblank : ∀ c ∈ [dquote], commandBlank c = false := List.forall_mem_singleton.mpr commandBlank_dquote
    obtain ⟨-, -, copied, -⟩ := piece_copied (x := []) (g := [dquote]) (t := m) (z := [dquote]) (y := [])
      (by simpa [dquoted] using begun) quoteUnblank quoteUnblank (by simp) (by simp) (by simp) (by simp) (.inr rfl)
    have lengths := congrArg List.length copied
    simp only [List.length_append, List.length_cons, List.length_nil, length_backslashed] at lengths
    omega
  | single m line shows wraps =>
    rw [shows, backslashed_squoted] at split
    rw [shows, wraps, backslashed_squoted] at begun
    obtain ⟨rfl, rfl⟩ := List.cons.inj split
    exact absurd begun (not_single line (joined rfl))
  | double m line whole shows wraps =>
    rw [shows, wraps, backslashed_dquoted, List.cons_append, List.append_assoc,
      readWords_bare_dquote] at begun
    obtain ⟨inert, later⟩ := inert_of_double (x := []) begun
    rw [whole]
    exact ⟨.inr ⟨m, wrapped_dquoted m, line, inert⟩, later⟩
  | fewer fewer =>
    have kept := not_fewer read budget
    omega

theorem seam_not_plain {c : UInt8} (isSeam : seam c = true) : plainByte c = false := by
  have seams : str " \t\n" = [space, ch '\t', newline] := by decide
  simp only [seam, seams, decide_eq_true_eq, List.mem_cons, List.not_mem_nil, or_false] at isSeam
  rcases isSeam with rfl | rfl | rfl <;> decide

/-- A component that is a plain word less its quotes is printed as that word. -/
theorem shown_of_plain {component : Bytes} (plain : (unwrapped component).all plainByte) :
    shown component = unwrapped component := by
  have clean := newline_not_mem_of_plain plain
  cases shape component with
  | same same => exact same
  | twice m _ wraps =>
    have quote := List.all_eq_true.mp plain dquote (by simp [wraps, dquoted])
    exact absurd quote (by decide)
  | single m line _ wraps =>
    rw [wraps] at clean
    exact absurd line clean
  | double m line _ _ wraps =>
    rw [wraps] at clean
    exact absurd line clean
  | fewer fewer =>
    have some_seam : 0 < (unwrapped component).countP seam := by omega
    obtain ⟨c, member, isSeam⟩ := List.countP_pos_iff.mp some_seam
    have kept := List.all_eq_true.mp plain c member
    rw [seam_not_plain isSeam] at kept
    cases kept

theorem squote_not_mem_of_plain {w : Bytes} (plain : w.all plainByte) : squote ∉ w := by
  intro member
  exact absurd (List.all_eq_true.mp plain squote member) (by decide)

theorem squote_not_mem_of_inert {m : Bytes} (inert : dquoteInert m) : squote ∉ m := by
  induction m with
  | nil => exact List.not_mem_nil
  | cons c m ih =>
    obtain ⟨⟨other, -⟩, -, inert⟩ := (dquoteInert_cons c m).mp inert
    rw [List.mem_cons, not_or]
    exact ⟨Ne.symm other, ih inert⟩

theorem piece_reads {component : Bytes} (plain : PathPlain component) (rest : Bytes) :
    readWords commandBlank .bare none (backslashed (shown component) ++ space :: rest) =
      (readWords commandBlank .bare none rest).map (unwrapped component :: ·) := by
  rcases plain with word | ⟨m, found, line, inert⟩
  · have bytes := word.2.1
    rw [shown_of_plain bytes, backslashed_of_unquoted (squote_not_mem_of_plain bytes), readWords_plain_word word,
      readWords_bare_blank commandBlank commandBlank_space]
    rfl
  · have differs : dquote ≠ newline := by decide
    have single := wrapped_other dquote_ne_squote found
    have wraps : unwrapped component = m := by simp [unwrapped, single, Option.mem_def.mp found]
    have whole : shown component = dquoted m := by
      rw [shown, stripped, enclosed_other differs dquote_ne_squote found, Option.getD_none,
        enclosed_of_wrapped differs found, if_pos line]
      exact wrapped_eq_some.mp found
    rw [whole, wraps, backslashed_dquoted, backslashed_of_unquoted (squote_not_mem_of_inert inert), List.cons_append,
      List.append_assoc, readWords_bare_dquote]
    show readWords commandBlank .double (some []) (m ++ dquote :: space :: rest) = _
    rw [readWords_inert_run inert, readWords_bare_blank commandBlank commandBlank_space]
    rfl

end VyattaCfg.Perl
