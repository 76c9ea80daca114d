import EspMesh.Model.RootSend

/-! # `router.c`: the watchdog is fed now and then -/

namespace EspMesh
set_option autoImplicit false

/-- The static `u32LastTimeStamp` of `period_feed_dog_in_second`, and how often `feed_dog` was
called. -/
structure FeedDog where
  u32LastTimeStamp : UInt32
  fed : ℕ
  deriving DecidableEq

def FeedDog.boot : FeedDog := ⟨0, 0⟩

/-- A call, with what `xTaskGetTickCount` returns to it. -/
structure FeedCall where
  tick : UInt32
  sec : UInt32

def FeedDog.feed (tick : UInt32) (s : FeedDog) : FeedDog := ⟨tick, s.fed + 1⟩

def periodFeedDogInSecond (s : FeedDog) (c : FeedCall) : FeedDog :=
  if s.u32LastTimeStamp < c.tick then
    if c.sec.toNat ≤ getTwoTimestampInterval c.tick s.u32LastTimeStamp then s.feed c.tick else s
  else
    let u32Total := c.tick + (0xffffffff - s.u32LastTimeStamp)
    if c.sec.toNat ≤ getTwoTimestampInterval u32Total 0 then s.feed c.tick else s

end EspMesh
