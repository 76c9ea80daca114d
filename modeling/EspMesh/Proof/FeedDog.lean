import EspMesh.Library.StepRuns
import EspMesh.Model.FeedDog

/-! # When the watchdog is fed

Behind the tick of the last feed the interval is right. In front of it the tick count has wrapped,
and the interval comes out one tick too short; in the tick itself it comes out as if all of the
2^32 ticks but one had passed.
-/

namespace EspMesh
set_option autoImplicit false
open StepRuns

/-- The call feeds the dog, and notes its tick, exactly if that many seconds have passed. -/
def FeedsInTime (s : FeedDog) (c : FeedCall) : Prop :=
  periodFeedDogInSecond s c =
    if 1000 * c.sec.toNat ≤ (c.tick - s.u32LastTimeStamp).toNat then s.feed c.tick else s

/-- The tick count is ahead of the last feed; or it has wrapped, and the time is not up in this
very tick; or it is the tick of the last feed and the call would feed anyway, or wait for
longer than the count can tell. -/
def TicksApart (s : FeedDog) (c : FeedCall) : Prop :=
  s.u32LastTimeStamp < c.tick ∨
    c.tick < s.u32LastTimeStamp ∧
      (c.tick - s.u32LastTimeStamp).toNat ≠ 1000 * c.sec.toNat ∨
    c.tick = s.u32LastTimeStamp ∧ (c.sec = 0 ∨ 4294967 < c.sec.toNat)

instance (s : FeedDog) (c : FeedCall) : Decidable (TicksApart s c) :=
  inferInstanceAs (Decidable (_ ∨ _ ∨ _))

/-- The interval in front of the last feed is a tick short. -/
theorem total_toNat (tick last : UInt32) (h : tick < last) :
    (tick + (0xffffffff - last)).toNat = (tick - last).toNat - 1 ∧ 0 < (tick - last).toNat := by
  have hlast := last.toNat_lt
  rw [UInt32.lt_iff_toNat_lt] at h
  rw [UInt32.toNat_add, UInt32.toNat_sub, UInt32.toNat_sub]
  have hmax : (0xffffffff : UInt32).toNat = 2 ^ 32 - 1 := rfl
  rw [hmax]
  omega

theorem feed_ne (s : FeedDog) (tick : UInt32) : s.feed tick ≠ s := by
  intro h
  have := congrArg FeedDog.fed h
  simp [FeedDog.feed] at this

theorem ite_feed_iff (s : FeedDog) (tick : UInt32) (p q : Prop) [Decidable p] [Decidable q] :
    ((if p then s.feed tick else s) = if q then s.feed tick else s) ↔ (p ↔ q) := by
  by_cases hp : p <;> by_cases hq : q <;> simp [hp, hq, feed_ne, (feed_ne _ _).symm]

theorem feedsInTime_iff (s : FeedDog) (c : FeedCall) : FeedsInTime s c ↔ TicksApart s c := by
  unfold FeedsInTime periodFeedDogInSecond TicksApart getTwoTimestampInterval
  by_cases hlt : s.u32LastTimeStamp < c.tick
  · rw [if_pos hlt, ite_feed_iff]
    exact iff_of_true (by omega) (.inl hlt)
  rw [if_neg hlt, ite_feed_iff, UInt32.sub_zero, or_iff_right hlt]
  by_cases heq : c.tick = s.u32LastTimeStamp
  · have hsec : c.sec = 0 ↔ c.sec.toNat = 0 := UInt32.toNat_inj.symm
    have hirrefl : ¬ s.u32LastTimeStamp < s.u32LastTimeStamp := UInt32.lt_irrefl _
    have hall : (s.u32LastTimeStamp + (0xffffffff - s.u32LastTimeStamp)).toNat = 4294967295 := by
      rw [UInt32.add_comm, UInt32.sub_add_cancel]
      rfl
    rw [heq, hall, UInt32.sub_self, UInt32.toNat_zero, or_iff_right fun h => hirrefl h.1,
      and_iff_right rfl, hsec]
    omega
  · have hgt : c.tick < s.u32LastTimeStamp := by
      rw [UInt32.lt_iff_toNat_lt] at hlt ⊢
      have hne : c.tick.toNat ≠ s.u32LastTimeStamp.toNat := fun h => heq (UInt32.toNat_inj.mp h)
      omega
    obtain ⟨htotal, hpos⟩ := total_toNat c.tick s.u32LastTimeStamp hgt
    rw [htotal, or_iff_left fun h => heq h.1, and_iff_right hgt]
    omega

/-- **Feeding the watchdog.** Over any sequence of calls, each one feeds the dog exactly when its
seconds have passed since the tick of the last feed, as long as the tick count does not stand
where it was then, and has not come to this very second by wrapping. -/
theorem watchdog_fed_in_time (s : FeedDog) (cs : List FeedCall) :
    Along periodFeedDogInSecond FeedsInTime s cs ↔ Along periodFeedDogInSecond TicksApart s cs :=
  along_congr (I := fun _ => True) (B := fun _ _ => True) (fun _ _ _ _ => trivial)
    (fun s c _ _ => feedsInTime_iff s c) trivial (along_of_forall fun _ _ _ => trivial)

/-- Two calls in one tick feed twice. -/
theorem same_tick_feeds_again :
    ¬ Along periodFeedDogInSecond FeedsInTime .boot [⟨20000, 10⟩, ⟨20000, 10⟩] := by
  rintro ⟨-, hagain, -⟩
  exact absurd ((feedsInTime_iff _ _).mp hagain) (by decide)

/-- Ten seconds to the tick, across the wrap, do not feed. -/
example : ¬ FeedsInTime ⟨4294967295, 1⟩ ⟨9999, 10⟩ := by
  rw [feedsInTime_iff]
  decide

end EspMesh
