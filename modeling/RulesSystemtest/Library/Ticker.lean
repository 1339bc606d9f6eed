import Mathlib.Order.Monotone.Basic
import Mathlib.Order.Lattice.Nat

/-! Loops that wait for a ticker. The ticker has room for one tick: one that fires
while another waits to be received is dropped. Times are counted from the start of the
ticker. A stretch of time in which a loop runs contains one of its rounds when it is
longer than every pause. -/

namespace RulesSystemtest.Library

/-- When the next tick is received after one at `last`, by a loop that is ready for it
at `now`. -/
def nextTick (interval last now : ℕ) : ℕ := max now ((last / interval + 1) * interval)

/-- When each tick is received by a loop whose rounds take `took`. -/
def tick (interval : ℕ) (took : ℕ → ℕ) : ℕ → ℕ
  | 0 => nextTick interval 0 0
  | i + 1 => nextTick interval (tick interval took i) (tick interval took i + took i)

section Ticks

variable {interval last now : ℕ} {took : ℕ → ℕ}

theorem lt_nextTick (h : 0 < interval) : last < nextTick interval last now :=
  lt_max_of_lt_right (Nat.lt_mul_of_div_lt (Nat.lt_succ_self _) h)

theorem nextTick_le : nextTick interval last now ≤ max now (last + interval) := by
  refine max_le_max le_rfl ?_
  rw [Nat.add_mul, Nat.one_mul]
  exact Nat.add_le_add_right (Nat.div_mul_le_self _ _) _

theorem tick_zero : tick interval took 0 = interval := by
  simp [tick, nextTick]

theorem tick_strictMono (h : 0 < interval) : StrictMono (tick interval took) :=
  strictMono_nat_of_lt_succ fun _ => lt_nextTick h

/-- A round starts when the one before is over, or at most an interval after it began. -/
theorem tick_succ_le (i : ℕ) :
    tick interval took (i + 1) ≤ tick interval took i + max (took i) interval := by
  rw [← Nat.add_max_add_left]
  exact nextTick_le

end Ticks

/-! ### Coverage -/

section Coverage

variable {x : ℕ → ℕ} {start stop pause : ℕ}

/-- The last round that has begun by a given time. -/
theorem exists_round (hx : StrictMono x) {a : ℕ} (ha : x 0 ≤ a) : ∃ i, x i ≤ a ∧ a < x (i + 1) := by
  have hex : ∃ n, a < x n := ⟨a + 1, hx.le_apply.trans_lt' (Nat.lt_succ_self a)⟩
  obtain ⟨i, hi⟩ : ∃ i, Nat.find hex = i + 1 := by
    refine Nat.exists_eq_succ_of_ne_zero fun hzero => ?_
    have hlt := Nat.find_spec hex
    rw [hzero] at hlt
    exact absurd ha (Nat.not_le.2 hlt)
  refine ⟨i, Nat.not_lt.1 (Nat.find_min hex (by omega)), ?_⟩
  rw [← hi]
  exact Nat.find_spec hex

/-- Between `start` and `stop`, every stretch longer than `pause` contains a round,
exactly when neither the first round nor any later one is awaited for longer. -/
theorem covers_iff (hx : StrictMono x) (hstart : start ≤ x 0) :
    (∀ a b, start ≤ a → b ≤ stop → pause < b - a → ∃ i, a < x i ∧ x i < b) ↔
      min (x 0) stop - start ≤ pause ∧ ∀ i, min (x (i + 1)) stop - x i ≤ pause := by
  constructor
  · intro h
    constructor
    · by_contra hlong
      obtain ⟨i, -, hi⟩ := h start (min (x 0) stop) le_rfl (min_le_right _ _) (Nat.not_le.1 hlong)
      have hfirst : x 0 ≤ x i := hx.monotone (Nat.zero_le i)
      exact absurd (hi.trans_le (min_le_left _ _)) (Nat.not_lt.2 hfirst)
    · intro i
      by_contra hlong
      have hi : start ≤ x i := hstart.trans (hx.monotone (Nat.zero_le i))
      obtain ⟨j, hij, hj⟩ := h (x i) (min (x (i + 1)) stop) hi (min_le_right _ _) (Nat.not_le.1 hlong)
      have hlt := hx.lt_iff_lt.1 hij
      have hlt' := hx.lt_iff_lt.1 (hj.trans_le (min_le_left _ _))
      omega
  · rintro ⟨hfirst, hnext⟩ a b ha hb hlong
    by_cases hbegun : x 0 ≤ a
    · obtain ⟨i, hi, hi'⟩ := exists_round hx hbegun
      refine ⟨i + 1, hi', ?_⟩
      have hpause := hnext i
      omega
    · exact ⟨0, Nat.not_le.1 hbegun, by omega⟩

/-- A ticker that starts at `first` covers the time between `start` and `stop` exactly when
that is no longer than `pause`, or the first tick comes within `pause` and no round takes
longer than that before `stop`. -/
theorem tick_covers_iff {interval first : ℕ} {took : ℕ → ℕ} (h : 0 < interval) (hfirst : start ≤ first) :
    (∀ a b, start ≤ a → b ≤ stop → pause < b - a →
      ∃ i, a < first + tick interval took i ∧ first + tick interval took i < b) ↔
    stop ≤ start + pause ∨ first + interval ≤ start + pause ∧
      ∀ i, min (took i) (stop - (first + tick interval took i)) ≤ pause := by
  have hmono : StrictMono fun i => first + tick interval took i :=
    fun i j hij => Nat.add_lt_add_left (tick_strictMono h hij) _
  have hzero : tick interval took 0 = interval := tick_zero
  rw [covers_iff hmono (by omega)]
  simp only [hzero]
  constructor
  · rintro ⟨hstart, hnext⟩
    by_cases hshort : stop ≤ start + pause
    · exact .inl hshort
    · refine .inr ⟨by omega, fun i => ?_⟩
      have hi := hnext i
      have hround : tick interval took i + took i ≤ tick interval took (i + 1) := le_max_left ..
      omega
  · rintro (hshort | ⟨hstart, htook⟩)
    · exact ⟨by omega, fun i => by omega⟩
    · refine ⟨by omega, fun i => ?_⟩
      have hi := htook i
      have hround : tick interval took (i + 1) ≤ tick interval took i + max (took i) interval := tick_succ_le i
      omega

end Coverage

end RulesSystemtest.Library
