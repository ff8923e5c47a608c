import VyattaCfg.Client.ResponseFree

namespace VyattaCfg.Client

open ByteString

/-- What the stream reports once its bytes have been read, and again each time it is asked. -/
inductive StreamEnd where
  | endOfFile
  | readError
  deriving DecidableEq, Repr

/-- The stream `conn->fp`: the bytes to come, its end, and its end-of-file indicator, which only an
    end of file sets. -/
structure Stream where
  rest : Bytes
  ends : StreamEnd
  eof : Bool
  eof_ends : eof = true → ends = .endOfFile

/-- The stream after an attempt to read behind its last byte. -/
def Stream.exhausted (s : Stream) : Stream where
  rest := []
  ends := s.ends
  eof := s.eof || s.ends = .endOfFile
  eof_ends := by
    intro told
    rcases (Bool.or_eq_true _ _).mp told with before | now
    · exact s.eof_ends before
    · exact of_decide_eq_true now

/-- What is known of `json_loadf`: malformed text costs at least a byte, and at the end there is
    nothing to load. -/
structure LoadsJson (loadf : Stream → Option Json × Stream) : Prop where
  same_end : ∀ s, (loadf s).2.ends = s.ends
  malformed : ∀ s, s.rest ≠ [] → (loadf s).1 = none → (loadf s).2.rest.length < s.rest.length
  at_end : ∀ s, s.rest = [] → loadf s = (none, s.exhausted)

section ReadLoop

variable (loadf : Stream → Option Json × Stream)

/-- The read loop of `recv_response`; `none` is a loop that has not ended after so many rounds. -/
def readLoop : Nat → Stream → Option (Option Json × Stream)
  | 0, _ => none
  | fuel + 1, s =>
    if s.eof then some (none, s)
    else
      match loadf s with
      | (some jresp, s) => some (some jresp, s)
      | (none, s) => readLoop fuel s

/-- `recv_response` on a stream. -/
def recvStream (fuel : Nat) (reqId : BitVec 32) (resp : Response) (s : Stream) :
    Option ((Int × Response) × Stream) :=
  (readLoop loadf fuel s).map fun (jresp, s) => (recvResponseInto reqId resp jresp, s)

/-- Before the bytes run out, an attempt to load starts where a valid text stands. -/
inductive Decodes : Stream → Prop where
  | here {s : Stream} {j : Json} (loaded : (loadf s).1 = some j) : Decodes s
  | later {s : Stream} (left : s.rest ≠ []) (failed : (loadf s).1 = none) (next : Decodes (loadf s).2) : Decodes s

variable {loadf}

theorem readLoop_eof {s : Stream} (eof : s.eof = true) (fuel : Nat) : readLoop loadf (fuel + 1) s = some (none, s) := by
  rw [readLoop, if_pos eof]

theorem readLoop_loaded {s : Stream} {j : Json} (running : s.eof = false) (loaded : (loadf s).1 = some j)
    (fuel : Nat) : readLoop loadf (fuel + 1) s = some (some j, (loadf s).2) := by
  rw [readLoop, if_neg (by simp [running])]
  cases attempt : loadf s with
  | mk jresp next =>
    rw [attempt] at loaded
    subst loaded
    rfl

theorem readLoop_failed {s : Stream} (running : s.eof = false) (failed : (loadf s).1 = none) (fuel : Nat) :
    readLoop loadf (fuel + 1) s = readLoop loadf fuel (loadf s).2 := by
  rw [readLoop, if_neg (by simp [running])]
  cases attempt : loadf s with
  | mk jresp next =>
    rw [attempt] at failed
    subst failed
    rfl

/-- At an end of file each round costs a byte or sets the indicator. -/
theorem readLoop_endOfFile (loads : LoadsJson loadf) {s : Stream} (ends : s.ends = .endOfFile) {fuel : Nat}
    (enough : s.rest.length + 2 ≤ fuel) : ∃ done, readLoop loadf fuel s = some done := by
  induction fuel generalizing s with
  | zero => omega
  | succ fuel ih =>
    cases eof : s.eof with
    | true => exact ⟨_, readLoop_eof eof fuel⟩
    | false =>
      cases loaded : (loadf s).1 with
      | some j => exact ⟨_, readLoop_loaded eof loaded fuel⟩
      | none =>
        rw [readLoop_failed eof loaded]
        by_cases left : s.rest = []
        · have told : s.exhausted.eof = true := by simp [Stream.exhausted, ends]
          obtain ⟨rounds, rfl⟩ : ∃ rounds, fuel = rounds + 1 := ⟨fuel - 1, by omega⟩
          rw [loads.at_end s left]
          exact ⟨_, readLoop_eof told rounds⟩
        · have shorter := loads.malformed s left loaded
          apply ih
          · rw [loads.same_end s]
            exact ends
          · omega

theorem readLoop_of_decodes {s : Stream} (decodes : Decodes loadf s) :
    ∃ fuel done, readLoop loadf fuel s = some done := by
  induction decodes with
  | @here s j loaded =>
    cases eof : s.eof with
    | true => exact ⟨1, _, readLoop_eof eof 0⟩
    | false => exact ⟨1, _, readLoop_loaded eof loaded 0⟩
  | @later s left failed next ih =>
    cases eof : s.eof with
    | true => exact ⟨1, _, readLoop_eof eof 0⟩
    | false =>
      rcases ih with ⟨fuel, done, ended⟩
      refine ⟨fuel + 1, done, ?_⟩
      rw [readLoop_failed eof failed]
      exact ended

theorem Stream.running_of_readError {s : Stream} (ends : s.ends = .readError) : s.eof = false := by
  cases eof : s.eof with
  | false => rfl
  | true =>
    have told := s.eof_ends eof
    rw [ends] at told
    cases told

/-- A read error leaves the end-of-file indicator clear, and the next attempt meets it again. -/
theorem readLoop_readError (loads : LoadsJson loadf) {s : Stream} (empty : s.rest = []) (ends : s.ends = .readError)
    (fuel : Nat) : readLoop loadf fuel s = none := by
  induction fuel generalizing s with
  | zero => rfl
  | succ fuel ih =>
    have attempt := loads.at_end s empty
    rw [readLoop_failed (Stream.running_of_readError ends) (by rw [attempt]), attempt]
    apply ih
    · rfl
    · exact ends

theorem decodes_of_readLoop (loads : LoadsJson loadf) {s : Stream} (ends : s.ends = .readError) {fuel : Nat}
    {done : Option Json × Stream} (ended : readLoop loadf fuel s = some done) : Decodes loadf s := by
  induction fuel generalizing s with
  | zero => cases ended
  | succ fuel ih =>
    by_cases empty : s.rest = []
    · rw [readLoop_readError loads empty ends] at ended
      cases ended
    · cases loaded : (loadf s).1 with
      | some j => exact .here loaded
      | none =>
        rw [readLoop_failed (Stream.running_of_readError ends) loaded] at ended
        apply Decodes.later empty loaded
        apply ih _ ended
        rw [loads.same_end s]
        exact ends

/-- `recv_response` returns from every stream but those that break off with a read error before
    anything could be loaded. -/
theorem recvStream_returns_iff (loads : LoadsJson loadf) (reqId : BitVec 32) (resp : Response) (s : Stream) :
    (∃ fuel done, recvStream loadf fuel reqId resp s = some done) ↔ s.ends = .endOfFile ∨ Decodes loadf s := by
  have loop : (∃ fuel done, recvStream loadf fuel reqId resp s = some done) ↔
      ∃ fuel done, readLoop loadf fuel s = some done := by
    constructor
    · intro returned
      rcases returned with ⟨fuel, done, returned⟩
      rcases Option.map_eq_some_iff.mp returned with ⟨done, ended, -⟩
      exact ⟨fuel, done, ended⟩
    · intro returned
      rcases returned with ⟨fuel, done, ended⟩
      exact ⟨fuel, _, Option.map_eq_some_iff.mpr ⟨done, ended, rfl⟩⟩
  rw [loop]
  constructor
  · intro returned
    rcases returned with ⟨fuel, done, ended⟩
    cases ends : s.ends with
    | endOfFile => exact .inl rfl
    | readError => exact .inr (decodes_of_readLoop loads ends ended)
  · intro held
    rcases held with ends | decodes
    · exact ⟨s.rest.length + 2, readLoop_endOfFile loads ends le_rfl⟩
    · exact readLoop_of_decodes decodes

end ReadLoop

/-- A loader that knows no text but the empty object, and takes a byte of anything else. -/
def loadEmptyObject (s : Stream) : Option Json × Stream :=
  match s.rest with
  | [] => (none, s.exhausted)
  | [_] => (none, { s with rest := [] })
  | b :: c :: rest =>
    if b = ch '\x7b' ∧ c = ch '\x7d' then (some (.object []), { s with rest })
    else (none, { s with rest := c :: rest })

theorem loadsJson_emptyObject : LoadsJson loadEmptyObject where
  same_end s := by
    unfold loadEmptyObject
    split
    · rfl
    · rfl
    · split <;> rfl
  malformed s left failed := by
    rcases s with ⟨rest, ends, eof, told⟩
    rcases rest with _ | ⟨b, _ | ⟨c, rest⟩⟩
    · contradiction
    · exact Nat.zero_lt_one
    · unfold loadEmptyObject at failed ⊢
      dsimp only at failed ⊢
      split_ifs at failed ⊢
      exact Nat.lt_succ_self _
  at_end s empty := by
    unfold loadEmptyObject
    rw [empty]

/-- The byte `?`, which no text starts with, then the empty object, then a read error. -/
theorem recvStream_returns_object :
    ∃ fuel done, recvStream loadEmptyObject fuel 1 ⟨none, .zero⟩
      ⟨[ch '?', ch '\x7b', ch '\x7d'], .readError, false, by simp⟩ = some done :=
  (recvStream_returns_iff loadsJson_emptyObject 1 ⟨none, .zero⟩
    ⟨[ch '?', ch '\x7b', ch '\x7d'], .readError, false, by simp⟩).mpr
    (.inr (.later (by decide) (by decide) (.here (by rfl))))

/-- A connection that is reset before any byte of the reply. -/
theorem recvStream_reset_hangs :
    ¬ ∀ (loadf : Stream → Option Json × Stream), LoadsJson loadf → ∀ (reqId : BitVec 32) (resp : Response) (s : Stream),
      ∃ fuel done, recvStream loadf fuel reqId resp s = some done := by
  intro returns
  rcases returns loadEmptyObject loadsJson_emptyObject 1 ⟨none, .zero⟩ ⟨[], .readError, false, by simp⟩
    with ⟨fuel, done, returned⟩
  rw [recvStream, readLoop_readError loadsJson_emptyObject rfl rfl] at returned
  cases returned

end VyattaCfg.Client
