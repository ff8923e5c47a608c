import VyattaCfg.Library.Bytes

namespace VyattaCfg.Cliexec

open ByteString

/-- The variables of `scan_ipv6` besides the pointer. -/
structure Ipv6Scan where
  parts : List Nat
  num : Int
  numCnt : Nat
  dotDotPos : Option Nat
  dotCnt : Nat
  base : Int
  total : Nat

def toUnsigned (n : Int) : Nat := (n % 0x100000000).toNat

/-- The array of `MAX_DOMAIN_TYPE_LEN` numbers, zeroed. -/
def noParts : List Nat := List.replicate 9 0

namespace Ipv6Scan

def start (parts : List Nat) : Ipv6Scan := ⟨parts, 0, 0, none, 0, 16, 8⟩

/-- What follows the switch at a byte that ends a number. `none` is a write past the array. -/
def close (scan : Ipv6Scan) (c : UInt8) : Option Ipv6Scan :=
  if scan.parts.length ≤ scan.numCnt then none
  else
    let parts := scan.parts.set scan.numCnt (toUnsigned scan.num)
    if scan.dotCnt = 2 ∨ (scan.dotCnt = 3 ∧ (c = 0 ∨ c = ch '/')) then
      let merged := parts.getD (scan.numCnt - 1) 0 * 256 + parts.getD scan.numCnt 0
      some { scan with parts := parts.set (scan.numCnt - 1) (merged % 0x100000000), num := 0 }
    else some { scan with parts := parts, num := 0, numCnt := scan.numCnt + 1 }

/-- It turns out it was decimal. -/
def dot (scan : Ipv6Scan) : Ipv6Scan :=
  let num := scan.num
  if scan.dotCnt = 0 then
    { scan with
      num := num.tdiv 256 * 100 + (num.tmod 256).tdiv 16 * 10 + num.tmod 16
      base := 10
      dotCnt := scan.dotCnt + 1 }
  else { scan with dotCnt := scan.dotCnt + 1 }

def gapHere (scan : Ipv6Scan) : Ipv6Scan := { scan with dotDotPos := some (scan.numCnt + 1) }

def slash (scan : Ipv6Scan) : Ipv6Scan := { scan with base := 10, total := 9 }

def lower (c : UInt8) : Int :=
  if ch 'A' ≤ c ∧ c ≤ ch 'Z' then c.toNat + 32 else if c < 128 then c.toNat else c.toNat - 256

def digit (scan : Ipv6Scan) (c : UInt8) : Ipv6Scan :=
  if ch '0' ≤ c ∧ c ≤ ch '9' then { scan with num := scan.num * scan.base + lower c - 48 }
  else { scan with num := scan.num * scan.base + lower c - 97 + 10 }

def step (scan : Ipv6Scan) (c : UInt8) : Option Ipv6Scan :=
  if c = ch '.' then scan.dot.close c
  else if c = ch ':' then scan.close c
  else if c = ch '/' then scan.slash.close c
  else some (scan.digit c)

def loop : Bytes → Ipv6Scan → Option Ipv6Scan
  | [], scan => scan.close 0
  | [c], scan => (scan.step c).bind fun scan => scan.close 0
  | c :: d :: rest, scan =>
    if c = ch ':' ∧ d = ch ':' then (scan.gapHere.close c).bind fun scan => loop rest scan
    else (scan.step c).bind fun scan => loop (d :: rest) scan

/-- Replaces the `::` with zeros. `none` is a move of a negative number of elements. -/
def spread (scan : Ipv6Scan) : Option (List Nat) :=
  match scan.dotDotPos with
  | none => some scan.parts
  | some pos =>
    if scan.total = scan.numCnt then some scan.parts
    else if scan.numCnt < pos then none
    else
      let dest := pos + scan.total - scan.numCnt
      let moved := scan.parts.take dest ++ (scan.parts.drop pos).take (scan.numCnt - pos) ++
        scan.parts.drop (dest + (scan.numCnt - pos))
      let gap := scan.total - scan.numCnt
      some (moved.take pos ++ List.replicate gap 0 ++ moved.drop (pos + gap))

end Ipv6Scan

def scanIpv6 (val : Bytes) (parts : List Nat) : Option (List Nat) :=
  let p := if str ".wh." <+: val then val.drop 4 else val
  (Ipv6Scan.loop p (.start parts)).bind Ipv6Scan.spread

namespace Ipv6Scan

/-- What holds of the counters in a whole scan, so that the final move stays inside the array. -/
structure Bounded (size : Nat) (scan : Ipv6Scan) : Prop where
  length : scan.parts.length = size
  count : scan.numCnt ≤ size
  total : 8 ≤ scan.total ∧ scan.total ≤ 9
  pos : ∀ pos ∈ scan.dotDotPos, 1 ≤ pos

variable {size : Nat} {scan after : Ipv6Scan}

theorem bounded_start {parts : List Nat} (length : parts.length = size) : Bounded size (start parts) where
  length := length
  count := Nat.zero_le size
  total := ⟨le_refl 8, Nat.le_succ 8⟩
  pos _ none := nomatch none

theorem Bounded.close (bounded : Bounded size scan) {c : UInt8} (closed : scan.close c = some after) :
    Bounded size after := by
  unfold Ipv6Scan.close at closed
  split at closed
  · cases closed
  · rename_i inside
    have length := bounded.length
    have count := bounded.count
    simp only at closed
    split at closed
    · obtain rfl := Option.some.inj closed
      exact ⟨by simp [length], count, bounded.total, bounded.pos⟩
    · obtain rfl := Option.some.inj closed
      refine ⟨by simp [length], ?_, bounded.total, bounded.pos⟩
      show scan.numCnt + 1 ≤ size
      omega

theorem Bounded.dot (bounded : Bounded size scan) : Bounded size scan.dot := by
  unfold Ipv6Scan.dot
  simp only
  split <;> exact ⟨bounded.length, bounded.count, bounded.total, bounded.pos⟩

theorem Bounded.digit (bounded : Bounded size scan) (c : UInt8) : Bounded size (scan.digit c) := by
  unfold Ipv6Scan.digit
  split <;> exact ⟨bounded.length, bounded.count, bounded.total, bounded.pos⟩

theorem Bounded.step (bounded : Bounded size scan) {c : UInt8} (stepped : scan.step c = some after) :
    Bounded size after := by
  unfold Ipv6Scan.step at stepped
  split at stepped
  · exact bounded.dot.close stepped
  · split at stepped
    · exact bounded.close stepped
    · split at stepped
      · have slashed : Bounded size scan.slash :=
          ⟨bounded.length, bounded.count, ⟨Nat.le_succ 8, le_refl 9⟩, bounded.pos⟩
        exact slashed.close stepped
      · obtain rfl := Option.some.inj stepped
        exact bounded.digit c

theorem Bounded.loop {p : Bytes} (bounded : Bounded size scan) (looped : loop p scan = some after) :
    Bounded size after := by
  induction p, scan using loop.induct with
  | case1 scan => exact bounded.close looped
  | case2 c scan =>
    rw [Ipv6Scan.loop] at looped
    obtain ⟨mid, stepped, closed⟩ := Option.bind_eq_some_iff.mp looped
    exact (bounded.step stepped).close closed
  | case3 c d rest scan gap ih =>
    rw [Ipv6Scan.loop, if_pos gap] at looped
    obtain ⟨mid, closed, rested⟩ := Option.bind_eq_some_iff.mp looped
    have gapped : Bounded size scan.gapHere := by
      refine ⟨bounded.length, bounded.count, bounded.total, ?_⟩
      intro pos given
      obtain rfl := Option.some.inj given
      exact Nat.le_add_left 1 _
    exact ih mid (gapped.close closed) rested
  | case4 c d rest scan gap ih =>
    rw [Ipv6Scan.loop, if_neg gap] at looped
    obtain ⟨mid, stepped, rested⟩ := Option.bind_eq_some_iff.mp looped
    exact ih mid (bounded.step stepped) rested

theorem Bounded.spread {parts : List Nat} (bounded : Bounded 9 scan) (spread : scan.spread = some parts) :
    parts.length = 9 := by
  have length := bounded.length
  have count := bounded.count
  have total := bounded.total
  unfold Ipv6Scan.spread at spread
  split at spread
  · obtain rfl := Option.some.inj spread
    exact length
  · rename_i pos given
    have first := bounded.pos pos given
    split at spread
    · obtain rfl := Option.some.inj spread
      exact length
    · split at spread
      · cases spread
      · obtain rfl := Option.some.inj spread
        simp only [List.length_append, List.length_take, List.length_drop, List.length_replicate, length]
        omega

end Ipv6Scan

theorem scanIpv6_length {val : Bytes} {parts : List Nat} (scanned : scanIpv6 val noParts = some parts) :
    parts.length = 9 := by
  unfold scanIpv6 at scanned
  obtain ⟨scan, looped, spread⟩ := Option.bind_eq_some_iff.mp scanned
  have start : Ipv6Scan.Bounded 9 (.start noParts) := Ipv6Scan.bounded_start rfl
  exact (start.loop looped).spread spread

end VyattaCfg.Cliexec
