import Mathlib.Data.List.TakeWhile
import Mathlib.Tactic.Common

namespace ByteString

abbrev Bytes := List UInt8

def ch (c : Char) : UInt8 := c.toNat.toUInt8

def str (s : String) : Bytes := s.toList.map ch

/-- What a C function sees of a buffer: the bytes before the first NUL. -/
def cstr (s : Bytes) : Bytes := s.takeWhile (· ≠ 0)

theorem cstr_nul_free (s : Bytes) : 0 ∉ cstr s := by
  intro nul
  have kept := List.mem_takeWhile_imp nul
  simp at kept

theorem cstr_of_nul_free {s : Bytes} (free : 0 ∉ s) : cstr s = s := by
  rw [cstr, List.takeWhile_eq_self_iff]
  intro b member
  have nonzero : b ≠ 0 := fun h => free (h ▸ member)
  simpa using nonzero

theorem cstr_idempotent (s : Bytes) : cstr (cstr s) = cstr s :=
  cstr_of_nul_free (cstr_nul_free s)

theorem cstr_append {s : Bytes} (free : 0 ∉ s) (t : Bytes) : cstr (s ++ t) = s ++ cstr t := by
  apply List.takeWhile_append_of_pos
  intro b member
  have nonzero : b ≠ 0 := fun zero => free (zero ▸ member)
  simpa using nonzero

theorem cstr_cut {s : Bytes} (free : 0 ∉ s) (rest : Bytes) : cstr (s ++ 0 :: rest) = s := by
  rw [cstr_append free]
  exact List.append_nil s

end ByteString
