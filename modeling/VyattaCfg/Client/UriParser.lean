import VyattaCfg.Library.Percent

namespace VyattaCfg.Client

open ByteString Percent

/-- What the program relies on of uriparser, called with `URI_FALSE` and `URI_TRUE`. -/
structure UriParser where
  escape : Bytes → Bytes
  unescape : Bytes → Bytes
  escape_nil : escape [] = []
  escape_byte : ∀ b s, b ≠ cr → b ≠ lf → escape (b :: s) = escapeByte b ++ escape s
  escape_lf : ∀ s, escape (lf :: s) = str "%0D%0A" ++ escape s
  escape_crlf : ∀ s, escape (cr :: lf :: s) = str "%0D%0A" ++ escape s
  escape_cr : ∀ s, s.head? ≠ some lf → escape (cr :: s) = str "%0D%0A" ++ escape s
  unescape_nil : unescape [] = []
  unescape_triplet : ∀ b high low value s, tripletValue b high low = some value →
    unescape (b :: high :: low :: s) = value :: unescape s
  unescape_other : ∀ b s, (∀ high low rest, s = high :: low :: rest → tripletValue b high low = none) →
    unescape (b :: s) = b :: unescape s

theorem normalizeBreaks_afterCr {s : Bytes} (other : s.head? ≠ some lf) :
    normalizeBreaks true s = normalizeBreaks false s := by
  cases s with
  | nil => rfl
  | cons b s =>
    have notLf : b ≠ lf := by simpa using other
    simp [normalizeBreaks, notLf]

theorem flatMap_crlf (s : Bytes) :
    (cr :: lf :: s).flatMap escapeByte = str "%0D%0A" ++ s.flatMap escapeByte := by
  have escaped : escapeByte cr ++ escapeByte lf = str "%0D%0A" := by decide
  rw [List.flatMap_cons, List.flatMap_cons, ← List.append_assoc, escaped]

theorem escape_break (s : Bytes) : Percent.escape (lf :: s) = str "%0D%0A" ++ Percent.escape s := by
  simp only [Percent.escape, normalizeBreaks_lf, Bool.false_eq_true, if_false, flatMap_crlf]

theorem UriParser.escape_eq (uri : UriParser) (s : Bytes) : uri.escape s = Percent.escape s := by
  match s with
  | [] => rw [uri.escape_nil]; rfl
  | b :: s =>
    by_cases isCr : b = cr
    · subst isCr
      by_cases next : s.head? = some lf
      · obtain ⟨rest, rfl⟩ := List.head?_eq_some_iff.mp next
        rw [uri.escape_crlf, UriParser.escape_eq uri rest]
        simp only [Percent.escape, normalizeBreaks_cr, normalizeBreaks_lf, if_true, flatMap_crlf]
      · rw [uri.escape_cr _ next, UriParser.escape_eq uri s]
        simp only [Percent.escape, normalizeBreaks_cr, normalizeBreaks_afterCr next, flatMap_crlf]
    · by_cases isLf : b = lf
      · rw [isLf, uri.escape_lf, escape_break, UriParser.escape_eq uri s]
      · rw [uri.escape_byte _ _ isCr isLf, UriParser.escape_eq uri s]
        simp only [Percent.escape, normalizeBreaks_plain isCr isLf, List.flatMap_cons]
termination_by s.length

theorem UriParser.unescape_eq (uri : UriParser) (s : Bytes) : uri.unescape s = Percent.unescape s := by
  match s with
  | [] => exact uri.unescape_nil
  | [b] => rw [uri.unescape_other _ _ (by simp), uri.unescape_nil]; rfl
  | [b, c] =>
    rw [uri.unescape_other _ _ (by simp), uri.unescape_other _ _ (by simp), uri.unescape_nil]
    rfl
  | b :: high :: low :: rest =>
    rw [Percent.unescape]
    split
    · rename_i value decoded
      rw [uri.unescape_triplet _ _ _ _ _ decoded, UriParser.unescape_eq uri rest]
    · rename_i other
      have stays : ∀ h l r, high :: low :: rest = h :: l :: r → tripletValue b h l = none := by
        intro h l r held
        cases held
        exact other
      rw [uri.unescape_other _ _ stays, UriParser.unescape_eq uri (high :: low :: rest)]
termination_by s.length

def uriparser : UriParser where
  escape := Percent.escape
  unescape := Percent.unescape
  escape_nil := rfl
  escape_byte b s notCr notLf := by
    simp only [Percent.escape, normalizeBreaks_plain notCr notLf, List.flatMap_cons]
  escape_lf := escape_break
  escape_crlf s := by
    simp only [Percent.escape, normalizeBreaks_cr, normalizeBreaks_lf, if_true, flatMap_crlf]
  escape_cr s next := by
    simp only [Percent.escape, normalizeBreaks_cr, normalizeBreaks_afterCr next, flatMap_crlf]
  unescape_nil := rfl
  unescape_triplet b high low value s decoded := by simp only [Percent.unescape, decoded]
  unescape_other b s stays := by
    match s with
    | [] => rfl
    | [_] => rfl
    | high :: low :: rest => simp only [Percent.unescape, stays high low rest rfl]

end VyattaCfg.Client
