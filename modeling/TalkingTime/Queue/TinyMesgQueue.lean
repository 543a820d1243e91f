import Mathlib.Algebra.Ring.Nat
import Mathlib.Data.List.Basic

/-! `TinyMesgQueue` of harbor, proxy and processor (three identical `Queue.h`),
called by one thread at a time. Interleaved calls are in `Sections` and
`Statements`, which take the pieces of the methods from here. -/

namespace TalkingTime

/-- `std::queue<T> queue_`, front first. The lock `qlock_` guards nothing here. -/
structure TinyMesgQueue (T : Type*) where
  queue_ : List T
  deriving DecidableEq, Repr

namespace TinyMesgQueue

variable {T : Type*}

def new : TinyMesgQueue T := ⟨[]⟩

def emptyQueueText : String := "Queue<>::deQueue: empty queue"

def pushSection (que : TinyMesgQueue T) (elem : T) : TinyMesgQueue T :=
  ⟨que.queue_ ++ [elem]⟩

/-- The test at the top of `deQueue`; the error is the `std::out_of_range` thrown. -/
def emptinessTest (que : TinyMesgQueue T) : Except String Unit :=
  if que.queue_.length ≤ 0 then .error emptyQueueText else .ok ()

/-- What `deQueue` does between lock and unlock: `front()` and `pop()`. Both are
undefined on an empty `std::queue`, which is the value `none`. -/
def popSection (que : TinyMesgQueue T) : Option (T × TinyMesgQueue T) :=
  match que.queue_ with
  | [] => none
  | t :: rest => some (t, ⟨rest⟩)

def enQueue (que : TinyMesgQueue T) (elem : T) : TinyMesgQueue T :=
  que.pushSection elem

def deQueue (que : TinyMesgQueue T) : Except String (Option (T × TinyMesgQueue T)) :=
  match que.emptinessTest with
  | .error text => .error text
  | .ok () => .ok que.popSection

/-- `uint32_t size()`: the conversion from `size_t` keeps the low 32 bits. -/
def size (que : TinyMesgQueue T) : UInt32 := UInt32.ofNat que.queue_.length

def empty (que : TinyMesgQueue T) : Bool := que.queue_.isEmpty

@[simp] theorem pushSection_queue (que : TinyMesgQueue T) (elem : T) :
    (que.pushSection elem).queue_ = que.queue_ ++ [elem] := rfl

theorem emptinessTest_of_nil {que : TinyMesgQueue T} (nil : que.queue_ = []) :
    que.emptinessTest = .error emptyQueueText := by
  simp [emptinessTest, nil]

theorem emptinessTest_of_ne_nil {que : TinyMesgQueue T} (filled : que.queue_ ≠ []) :
    que.emptinessTest = .ok () := by
  have positive : ¬ que.queue_.length ≤ 0 := by
    simpa using filled
  simp [emptinessTest, positive]

theorem popSection_of_nil {que : TinyMesgQueue T} (nil : que.queue_ = []) :
    que.popSection = none := by
  simp [popSection, nil]

theorem popSection_of_cons {que : TinyMesgQueue T} {t : T} {rest : List T}
    (filled : que.queue_ = t :: rest) : que.popSection = some (t, ⟨rest⟩) := by
  simp [popSection, filled]

theorem deQueue_alone (que : TinyMesgQueue T) :
    (que.empty = true ∧ que.deQueue = .error emptyQueueText) ∨
      (que.empty = false ∧ ∃ t rest, que.queue_ = t :: rest ∧
        que.deQueue = .ok (some (t, ⟨rest⟩))) := by
  rcases filled : que.queue_ with _ | ⟨t, rest⟩
  · left
    simp [empty, deQueue, emptinessTest_of_nil filled, filled]
  · right
    have test : que.emptinessTest = .ok () := emptinessTest_of_ne_nil (by simp [filled])
    refine ⟨by simp [empty, filled], t, rest, rfl, ?_⟩
    rw [deQueue, test, popSection_of_cons filled]

theorem size_eq_zero_iff (que : TinyMesgQueue T) :
    que.size = 0 ↔ 2 ^ 32 ∣ que.queue_.length := by
  rw [size, Nat.dvd_iff_mod_eq_zero, ← UInt32.toNat_inj]
  simp

def deQueueAll : TinyMesgQueue T → Nat → Except String (Option (List T × TinyMesgQueue T))
  | que, 0 => .ok (some ([], que))
  | que, count + 1 =>
      match que.deQueue with
      | .error text => .error text
      | .ok none => .ok none
      | .ok (some (t, after)) =>
          match after.deQueueAll count with
          | .ok (some (ts, final)) => .ok (some (t :: ts, final))
          | other => other

theorem foldl_enQueue (que : TinyMesgQueue T) (elems : List T) :
    elems.foldl enQueue que = ⟨que.queue_ ++ elems⟩ := by
  induction elems generalizing que with
  | nil => simp
  | cons elem rest ih => simp [ih, enQueue]

theorem deQueueAll_drains (queue : List T) :
    deQueueAll ⟨queue⟩ queue.length = .ok (some (queue, new)) := by
  induction queue with
  | nil => rfl
  | cons t rest ih => simp [deQueueAll, deQueue, emptinessTest, popSection, ih]

theorem deQueueAll_enQueues (que : TinyMesgQueue T) (elems : List T) :
    (elems.foldl enQueue que).deQueueAll (que.queue_.length + elems.length) =
      .ok (some (que.queue_ ++ elems, new)) := by
  rw [foldl_enQueue, ← List.length_append, deQueueAll_drains]

/-- `test_queue.cc`. -/
example : ([111, 4444, 222].foldl enQueue (new : TinyMesgQueue Nat)).deQueueAll 3 =
    .ok (some ([111, 4444, 222], new)) := by rfl

end TinyMesgQueue

end TalkingTime
