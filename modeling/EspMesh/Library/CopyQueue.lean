import EspMesh.Library.StepRuns

/-! # A bounded queue that copies its items

The queue of a real-time kernel: it is created with a capacity and an item size, `send` copies
that many bytes from the object it is given, and `receive` copies that many bytes over the
object it is given. Neither looks at the size of the object.

`Delivered.received_eq` says what such a queue delivers when the item size is not the object size:
the first `itemSize` bytes of every object accepted, in order, each followed by the tail that the
destination had before.
-/

namespace CopyQueue
set_option autoImplicit false
open StepRuns

structure Queue where
  itemSize : ℕ
  capacity : ℕ
  /-- The copies waiting, the oldest first. -/
  items : List (List UInt8)

def create (capacity itemSize : ℕ) : Queue := ⟨itemSize, capacity, []⟩

/-- A send that does not wait: `false` when the queue is full. -/
def Queue.send (q : Queue) (src : List UInt8) : Queue × Bool :=
  if q.items.length < q.capacity then
    ({ q with items := q.items ++ [src.take q.itemSize] }, true)
  else (q, false)

/-- A receive that does not wait: `none` when the queue is empty. -/
def Queue.receive (q : Queue) (dst : List UInt8) : Option (List UInt8 × Queue) :=
  match q.items with
  | [] => none
  | item :: rest => some (item ++ dst.drop q.itemSize, { q with items := rest })

theorem send_full (q : Queue) (src : List UInt8) (h : ¬ q.items.length < q.capacity) :
    q.send src = (q, false) := if_neg h

theorem send_room (q : Queue) (src : List UInt8) (h : q.items.length < q.capacity) :
    q.send src = ({ q with items := q.items ++ [src.take q.itemSize] }, true) := if_pos h

/-! ## One sender, one receiver -/

/-- `retarget` has the receiver go on with another object. -/
inductive Op
  | send (src : List UInt8)
  | receive
  | retarget (dst : List UInt8)

/-- A queue between two tasks, with what was accepted and what was received so far;
`overwritten` is what the destination held before each receive. -/
structure Traffic where
  queue : Queue
  dst : List UInt8
  accepted : List (List UInt8)
  received : List (List UInt8)
  overwritten : List (List UInt8)

def Traffic.start (q : Queue) (dst : List UInt8) : Traffic := ⟨q, dst, [], [], []⟩

def Traffic.step (t : Traffic) : Op → Traffic
  | .send src =>
    match t.queue.send src with
    | (q, true) => { t with queue := q, accepted := t.accepted ++ [src] }
    | (q, false) => { t with queue := q }
  | .receive =>
    match t.queue.receive t.dst with
    | none => t
    | some (dst, q) =>
      { t with
        queue := q
        dst := dst
        received := t.received ++ [dst]
        overwritten := t.overwritten ++ [t.dst] }
  | .retarget dst => { t with dst := dst }

/-- The copies of the objects accepted are those received, each over what the destination held,
followed by those still waiting. -/
structure Delivered (n : ℕ) (t : Traffic) : Prop where
  size : t.queue.itemSize = n
  split : ∃ done, t.accepted.map (List.take n) = done ++ t.queue.items ∧
    t.overwritten.length = done.length ∧
    t.received = List.zipWith (fun copy before => copy ++ before.drop n) done t.overwritten

theorem delivered_start (capacity n : ℕ) (dst : List UInt8) :
    Delivered n (.start (create capacity n) dst) :=
  ⟨rfl, [], rfl, rfl, rfl⟩

theorem delivered_step {n : ℕ} {t : Traffic} (h : Delivered n t) (op : Op) :
    Delivered n (t.step op) := by
  obtain ⟨done, hacc, hlen, hrec⟩ := h.split
  cases op with
  | send src =>
    by_cases hroom : t.queue.items.length < t.queue.capacity
    · simp only [Traffic.step, send_room _ _ hroom]
      exact ⟨h.size, done, by simp [hacc, h.size], hlen, hrec⟩
    · simp only [Traffic.step, send_full _ _ hroom]
      exact h
  | receive =>
    cases hq : t.queue.items with
    | nil => simpa [Traffic.step, Queue.receive, hq] using h
    | cons item rest =>
      simp only [Traffic.step, Queue.receive, hq]
      refine ⟨h.size, done ++ [item], ?_, by simp [hlen], ?_⟩
      · rw [hacc, hq, List.append_assoc, List.singleton_append]
      · rw [List.zipWith_append hlen.symm, hrec, h.size]
        rfl
  | retarget dst => exact ⟨h.size, done, hacc, hlen, hrec⟩

/-- **What the queue delivers.** The objects received are the first ones accepted, in order,
each cut to the item size and completed by what the destination held before. -/
theorem Delivered.received_eq {n : ℕ} {t : Traffic} (h : Delivered n t) :
    t.received =
      List.zipWith (fun src before => src.take n ++ before.drop n) t.accepted t.overwritten := by
  obtain ⟨done, hacc, hlen, hrec⟩ := h.split
  let put (copy before : List UInt8) := copy ++ before.drop n
  calc t.received = List.zipWith put done t.overwritten := hrec
    _ = List.zipWith put done t.overwritten ++ List.zipWith put t.queue.items [] := by
      rw [List.zipWith_nil_right, List.append_nil]
    _ = List.zipWith put (t.accepted.map (List.take n)) t.overwritten := by
      rw [← List.zipWith_append hlen.symm, ← hacc, List.append_nil]
    _ = _ := List.zipWith_map_left

theorem Delivered.overwritten_length_le {n : ℕ} {t : Traffic} (h : Delivered n t) :
    t.overwritten.length ≤ t.accepted.length := by
  obtain ⟨done, hacc, hlen, -⟩ := h.split
  have := congrArg List.length hacc
  rw [List.length_map, List.length_append] at this
  omega

end CopyQueue
