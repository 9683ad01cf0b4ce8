import VynxHttp.StepRun

/-!
# First in, first out

A queue with its history: what has entered is what has left followed by the
contents.  A system of partial steps refines a queue when each of its events
comes to some operations on the queue, and then so does each of its runs.
-/

namespace VynxHttp

structure Fifo (α : Type*) where
  entered : List α
  left : List α
  contents : List α
  conserved : entered = left ++ contents

inductive FifoOp (α : Type*) where
  | enqueue (xs : List α)
  | dequeue (count : ℕ)
  | clear

namespace Fifo

variable {α : Type*}

/-- A queue without a past. -/
def starting (contents : List α) : Fifo α := ⟨contents, [], contents, rfl⟩

def enqueue (queue : Fifo α) (xs : List α) : Fifo α where
  entered := queue.entered ++ xs
  left := queue.left
  contents := queue.contents ++ xs
  conserved := by rw [queue.conserved, List.append_assoc]

def dequeue (queue : Fifo α) (count : ℕ) : Fifo α where
  entered := queue.entered
  left := queue.left ++ queue.contents.take count
  contents := queue.contents.drop count
  conserved := by
    rw [List.append_assoc, List.take_append_drop]
    exact queue.conserved

def apply (queue : Fifo α) : FifoOp α → Fifo α
  | .enqueue xs => queue.enqueue xs
  | .dequeue count => queue.dequeue count
  | .clear => queue.dequeue queue.contents.length

def applyAll (queue : Fifo α) (ops : List (FifoOp α)) : Fifo α :=
  ops.foldl apply queue

/-- What an operation puts into the queue. -/
def entering : FifoOp α → List α
  | .enqueue xs => xs
  | _ => []

@[simp] theorem contents_enqueue (queue : Fifo α) (xs : List α) :
    (queue.enqueue xs).contents = queue.contents ++ xs :=
  rfl

@[simp] theorem contents_dequeue (queue : Fifo α) (count : ℕ) :
    (queue.dequeue count).contents = queue.contents.drop count :=
  rfl

@[simp] theorem left_dequeue (queue : Fifo α) (count : ℕ) :
    (queue.dequeue count).left = queue.left ++ queue.contents.take count :=
  rfl

@[simp] theorem applyAll_nil (queue : Fifo α) : queue.applyAll [] = queue :=
  rfl

@[simp] theorem applyAll_singleton (queue : Fifo α) (op : FifoOp α) :
    queue.applyAll [op] = queue.apply op :=
  rfl

theorem applyAll_append (queue : Fifo α) (first second : List (FifoOp α)) :
    queue.applyAll (first ++ second) =
      (queue.applyAll first).applyAll second :=
  List.foldl_append

theorem entered_apply (queue : Fifo α) (op : FifoOp α) :
    (queue.apply op).entered = queue.entered ++ entering op := by
  cases op with
  | enqueue xs => rfl
  | dequeue count => exact (List.append_nil _).symm
  | clear => exact (List.append_nil _).symm

theorem entered_applyAll (queue : Fifo α) (ops : List (FifoOp α)) :
    (queue.applyAll ops).entered =
      queue.entered ++ ops.flatMap entering := by
  induction ops generalizing queue with
  | nil => exact (List.append_nil _).symm
  | cons op ops ih =>
      have hlater := ih (queue.apply op)
      rw [entered_apply, List.append_assoc] at hlater
      exact hlater

/-! ## Systems which refine a queue -/

variable {σ ε : Type*} {step : σ → ε → Option σ}

theorem run_refines (Refines : σ → Fifo α → Prop) (ops : ε → List (FifoOp α))
    (hstep : ∀ s queue event next, Refines s queue →
      step s event = some next → Refines next (queue.applyAll (ops event)))
    {s final : σ} {queue : Fifo α} {events : List ε}
    (hrefines : Refines s queue)
    (hrun : StepRun.run step s events = some final) :
    Refines final (queue.applyAll (events.flatMap ops)) := by
  induction events generalizing s queue with
  | nil =>
      rw [StepRun.run_nil, Option.some.injEq] at hrun
      exact hrun ▸ hrefines
  | cons event events ih =>
      obtain ⟨next, hnext, hlater⟩ := StepRun.run_cons_eq_some.mp hrun
      rw [List.flatMap_cons, applyAll_append]
      exact ih (hstep s queue event next hrefines hnext) hlater

end Fifo

end VynxHttp
