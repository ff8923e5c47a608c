import VyattaCfg.Library.Bytes
import VyattaCfg.Library.Runs

namespace VyattaCfg.Cliexec

open ByteString

def bufIncrement : Nat := 4096

/-- One of the two buffers of cli_def.l: the size of the memory it points to, the length recorded for
    it and what stands in front of its pointer. -/
structure TextBuffer where
  allocated : Nat
  buflen : Nat
  text : Bytes
  deriving DecidableEq, Repr

namespace TextBuffer

/-- `append_action` and `append_str` differ in the buffer alone. The `realloc` succeeds. -/
def append (buf : TextBuffer) (text : Bytes) : TextBuffer :=
  let tlen := text.length
  let room := if buf.text.length + tlen ≥ buf.buflen then
    { buf with allocated := buf.buflen + bufIncrement, buflen := buf.buflen + bufIncrement } else buf
  { room with text := room.text ++ text }

/-- What `return_action` and `return_str` leave: the pointer is back at the start. -/
def flush (buf : TextBuffer) : TextBuffer := { buf with text := [] }

/-- The bytes in use, with the NUL behind them. -/
def used (buf : TextBuffer) : Nat := buf.text.length + 1

def Fits (buf : TextBuffer) : Prop := buf.used ≤ buf.buflen ∧ buf.allocated = buf.buflen

/-- One increment is enough for the chunk. -/
def Takes (buf : TextBuffer) (text : Bytes) : Prop :=
  buf.text.length + text.length < buf.buflen + bufIncrement

theorem append_fits_iff {buf : TextBuffer} (fits : buf.Fits) (text : Bytes) :
    (buf.append text).Fits ↔ buf.Takes text := by
  obtain ⟨inside, sized⟩ := fits
  unfold Fits Takes append used at *
  by_cases full : buf.text.length + text.length ≥ buf.buflen
  · simp only [if_pos full, List.length_append, and_true]
    omega
  · simp only [if_neg full, List.length_append, sized, and_true]
    omega

theorem flush_fits {buf : TextBuffer} (fits : buf.Fits) : buf.flush.Fits := by
  obtain ⟨inside, sized⟩ := fits
  unfold Fits flush used at *
  simp only [List.length_nil]
  omega

/-- A chunk of one increment at most is always taken. -/
theorem takes_of_length_le {buf : TextBuffer} (fits : buf.Fits) {text : Bytes}
    (short : text.length ≤ bufIncrement) : buf.Takes text := by
  obtain ⟨inside, -⟩ := fits
  unfold Takes used at *
  omega

end TextBuffer

structure LexerBuffers where
  action : TextBuffer
  str : TextBuffer
  deriving DecidableEq, Repr

inductive LexerCall where
  | appendAction (text : Bytes)
  | appendStr (text : Bytes)
  | returnAction
  | returnStr
  deriving DecidableEq, Repr

namespace LexerBuffers

def initBufs : LexerBuffers where
  action := ⟨bufIncrement, bufIncrement, []⟩
  str := ⟨bufIncrement, bufIncrement, []⟩

def appendAction (bufs : LexerBuffers) (text : Bytes) : LexerBuffers :=
  { bufs with action := bufs.action.append text }

def appendStr (bufs : LexerBuffers) (text : Bytes) : LexerBuffers :=
  { bufs with str := bufs.str.append text }

/-- The text of the token, and the buffers behind it. -/
def returnAction (bufs : LexerBuffers) : Bytes × LexerBuffers :=
  (bufs.action.text, { bufs with action := bufs.action.flush })

def returnStr (bufs : LexerBuffers) : Bytes × LexerBuffers :=
  (bufs.str.text, { bufs with str := bufs.str.flush })

def call (bufs : LexerBuffers) : LexerCall → LexerBuffers
  | .appendAction text => bufs.appendAction text
  | .appendStr text => bufs.appendStr text
  | .returnAction => bufs.returnAction.2
  | .returnStr => bufs.returnStr.2

def Fit (bufs : LexerBuffers) : Prop := bufs.action.Fits ∧ bufs.str.Fits

def Flushed (bufs : LexerBuffers) : Prop := bufs.Fit ∧ bufs.action.text = [] ∧ bufs.str.text = []

def Takes (bufs : LexerBuffers) : LexerCall → Prop
  | .appendAction text => bufs.action.Takes text
  | .appendStr text => bufs.str.Takes text
  | .returnAction | .returnStr => True

theorem initBufs_fit : initBufs.Fit := by
  unfold Fit TextBuffer.Fits
  decide

theorem call_fit_iff (bufs : LexerBuffers) (made : LexerCall) (fit : bufs.Fit) :
    (bufs.call made).Fit ↔ bufs.Takes made := by
  obtain ⟨action, str⟩ := fit
  cases made with
  | appendAction text => exact (and_iff_left str).trans (TextBuffer.append_fits_iff action text)
  | appendStr text => exact (and_iff_right action).trans (TextBuffer.append_fits_iff str text)
  | returnAction => exact iff_true_intro ⟨TextBuffer.flush_fits action, str⟩
  | returnStr => exact iff_true_intro ⟨action, TextBuffer.flush_fits str⟩

/-- The buffers hold their text and its NUL after every call exactly when no call brings a chunk that
    one increment does not make room for. -/
theorem calls_fit_iff {bufs : LexerBuffers} (start : bufs = initBufs ∨ bufs.Flushed) (calls : List LexerCall) :
    (∀ done rest, calls = done ++ rest → (done.foldl call bufs).Fit) ↔
      ∀ done made rest, calls = done ++ made :: rest → (done.foldl call bufs).Takes made := by
  have fit : bufs.Fit := by
    rcases start with rfl | flushed
    · exact initBufs_fit
    · exact flushed.1
  exact Runs.throughout_iff call_fit_iff fit calls

theorem calls_fit_iff_line :
    (∀ done rest, [LexerCall.appendAction (ByteString.str "exit 1"), .returnAction] = done ++ rest →
      (done.foldl call initBufs).Fit) ↔
      ∀ done made rest, [LexerCall.appendAction (ByteString.str "exit 1"), .returnAction] = done ++ made :: rest →
        (done.foldl call initBufs).Takes made := by
  have start : initBufs = initBufs ∨ initBufs.Flushed := .inl rfl
  exact calls_fit_iff start [.appendAction (ByteString.str "exit 1"), .returnAction]

/-- A line of two increments in a fresh buffer is one byte too many. -/
theorem long_line_overruns :
    ¬ ∀ calls done rest : List LexerCall, calls = done ++ rest → (done.foldl call initBufs).Fit := by
  intro always
  have fit := always [.appendAction (List.replicate 8192 (ch 'a'))] [.appendAction (List.replicate 8192 (ch 'a'))]
    [] rfl
  have taken := (TextBuffer.append_fits_iff initBufs_fit.1 _).mp fit.1
  unfold TextBuffer.Takes at taken
  rw [List.length_replicate] at taken
  exact absurd taken (by decide)

end LexerBuffers

end VyattaCfg.Cliexec
