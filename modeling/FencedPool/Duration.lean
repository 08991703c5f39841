import FencedPool.Power

/-!
# Duration — spans of time down to the nanosecond

A duration is a number of whole seconds that fits 64 bits and a rest below one second.

This file defines `Duration`, its conversions and `Duration.add?`.
-/

namespace FencedPool

abbrev nanosPerSecond : Nat := 1000000000

structure Duration where
  seconds : Nat
  nanos : Nat
  seconds_lt : seconds < Power.two 64 := by decide
  nanos_lt : nanos < nanosPerSecond := by decide
  deriving DecidableEq, Repr

namespace Duration

def zero : Duration := ⟨0, 0, by decide, by decide⟩

instance : Inhabited Duration := ⟨zero⟩

/-- Half a minute, the timeout of sessions unless another one is set. -/
def halfMinute : Duration := ⟨30, 0, by decide, by decide⟩

def isZero (d : Duration) : Bool := d.seconds == 0 && d.nanos == 0

def toNanos (d : Duration) : Nat := d.seconds * nanosPerSecond + d.nanos

/-- The duration of a number of nanoseconds, unless it is too long. -/
def ofNanos? (n : Nat) : Option Duration :=
  if h : n / nanosPerSecond < Power.two 64 then
    some ⟨n / nanosPerSecond, n % nanosPerSecond, h, Nat.mod_lt _ (by decide)⟩
  else none

def longest : Duration := ⟨Power.two 64 - 1, nanosPerSecond - 1, by decide, by decide⟩

/-- The duration of a number of nanoseconds, or the longest one when there is none. -/
def ofNanos (n : Nat) : Duration := (ofNanos? n).getD longest

def ofMillis (n : Nat) : Duration := ofNanos (n * 1000000)

/-- The duration lengthened by seconds and nanoseconds, unless it gets too long. -/
def add? (d : Duration) (seconds nanos : Nat) : Option Duration :=
  ofNanos? (d.toNanos + seconds * nanosPerSecond + nanos)

theorem toNanos_injective {d e : Duration} (h : d.toNanos = e.toNanos) : d = e := by
  obtain ⟨s, n, _, hn⟩ := d
  obtain ⟨t, m, _, hm⟩ := e
  simp only [toNanos, nanosPerSecond] at h hn hm
  simp only [mk.injEq]
  omega

theorem ofNanos?_eq_some_iff {n : Nat} {d : Duration} : ofNanos? n = some d ↔ n = d.toNanos := by
  have hd := d.nanos_lt
  have hs := d.seconds_lt
  unfold ofNanos?
  constructor
  · split
    · rintro ⟨⟩
      exact (Nat.div_add_mod' n nanosPerSecond).symm
    · rintro ⟨⟩
  · rintro rfl
    have hq : d.toNanos / nanosPerSecond = d.seconds := by
      simp only [toNanos, nanosPerSecond] at hd ⊢
      omega
    have hr : d.toNanos % nanosPerSecond = d.nanos := by
      simp only [toNanos, nanosPerSecond] at hd ⊢
      omega
    simp only [hq, hr, dif_pos hs]

theorem toNanos_le_longest (d : Duration) : d.toNanos ≤ longest.toNanos := by
  have hseconds : d.seconds ≤ longest.seconds := Nat.le_pred_of_lt d.seconds_lt
  have hnanos : d.nanos ≤ longest.nanos := Nat.le_pred_of_lt d.nanos_lt
  exact Nat.add_le_add (Nat.mul_le_mul_right _ hseconds) hnanos

/-- Every number of nanoseconds up to the longest duration is that of a duration. -/
theorem exists_toNanos {n : Nat} (h : n ≤ longest.toNanos) : ∃ d : Duration, d.toNanos = n := by
  have hseconds : n / nanosPerSecond < Power.two 64 := by
    apply Nat.div_lt_of_lt_mul
    calc n ≤ longest.toNanos := h
      _ < nanosPerSecond * Power.two 64 := by decide
  exact ⟨⟨n / nanosPerSecond, n % nanosPerSecond, hseconds, Nat.mod_lt _ (by decide)⟩,
    Nat.div_add_mod' n nanosPerSecond⟩

theorem toNanos_ofNanos (n : Nat) : (ofNanos n).toNanos = min n longest.toNanos := by
  unfold ofNanos
  cases hd : ofNanos? n with
  | some d =>
      obtain rfl := ofNanos?_eq_some_iff.1 hd
      exact (Nat.min_eq_left d.toNanos_le_longest).symm
  | none =>
      refine (Nat.min_eq_right (Nat.le_of_not_le fun hle => ?_)).symm
      rcases exists_toNanos hle with ⟨d, rfl⟩
      rw [ofNanos?_eq_some_iff.2 rfl] at hd
      cases hd

end Duration

end FencedPool
