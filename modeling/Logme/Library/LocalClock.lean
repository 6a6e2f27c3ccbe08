import Mathlib.Data.Int.Order.Basic

/-!
# Local clocks

A local clock shows an instant plus an offset, which may change from instant to
instant: it skips readings when it is set forward and shows readings twice when
it is set back.  A resolver finds an instant for a reading.
-/

structure LocalClock where
  offset : Int → Int

namespace LocalClock

variable (clock : LocalClock) {resolve first second : Int → Int}

/-- What the clock shows at an instant. -/
def reading (u : Int) : Int := u + clock.offset u

/-- A reading that is shown is resolved to an instant at which it is. -/
def Resolves (resolve : Int → Int) : Prop :=
  ∀ u, clock.reading (resolve (clock.reading u)) = clock.reading u

/-- By how much the clock misses a reading at the instant it is resolved to. -/
def missed (resolve : Int → Int) (l : Int) : Int := clock.reading (resolve l) - l

theorem missed_reading (hresolve : clock.Resolves resolve) (u : Int) :
    clock.missed resolve (clock.reading u) = 0 := by
  rw [missed, hresolve u, Int.sub_self]

theorem resolve_eq (resolve : Int → Int) (l : Int) :
    resolve l = l + clock.missed resolve l - clock.offset (resolve l) := by
  unfold missed reading
  omega

/-- The offset that is sampled at the instant of a reading, as the difference
of two more instants: those that the instant itself and its reading are
resolved to. -/
theorem sampled_eq (first : Int → Int) (hsecond : clock.Resolves second) (t : Int) :
    second (first t) - second (clock.reading (first t)) =
      first t - t +
        (clock.offset (second (clock.reading (first t))) + clock.missed second (first t) -
          (clock.offset (second (first t)) + clock.missed first t)) := by
  have hinstant := clock.resolve_eq second (first t)
  have hreading := clock.resolve_eq second (clock.reading (first t))
  rw [clock.missed_reading hsecond] at hreading
  have hmissed : clock.reading (first t) = t + clock.missed first t := by
    unfold missed
    omega
  omega

/-! ## A clock that is never set -/

theorem resolve_fixed {offset : Int} (hfixed : ∀ u, clock.offset u = offset)
    (hresolve : clock.Resolves resolve) (l : Int) : resolve l = l - offset := by
  have hshown : clock.reading (l - offset) = l := by
    rw [reading, hfixed]
    omega
  have hsame := hresolve (l - offset)
  rw [hshown, reading, hfixed] at hsame
  omega

/-! ## Differences in a bounded integer -/

theorem bmod_add_eq_iff (a d : Int) (n : Nat) :
    (a + d).bmod n = a ↔ (n : Int) ∣ d ∧ a.bmod n = a := by
  constructor
  · intro h
    have hdvd : (n : Int) ∣ (a + d).bmod n - (a + d) := Int.dvd_bmod_sub_self
    have hself := Int.bmod_bmod (x := a + d) (m := n)
    rw [h] at hdvd hself
    have hneg : a - (a + d) = -d := by omega
    rw [hneg, Int.dvd_neg] at hdvd
    exact ⟨hdvd, hself⟩
  · intro ⟨hdvd, hself⟩
    obtain ⟨k, rfl⟩ := hdvd
    rw [Int.add_mul_bmod_self_left, hself]

end LocalClock
