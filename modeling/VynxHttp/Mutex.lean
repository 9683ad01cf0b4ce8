import Mathlib.Tactic.Common

/-!
# A mutex and its thread

A mutex which is not recursive, as one thread sees it, together with what it
guards.  A thread which locks the mutex while it holds it goes no further.
-/

namespace VynxHttp

inductive Mutex where
  | free
  | held
  | relocked
  deriving DecidableEq, Repr

structure Guarded (σ : Type*) where
  mutex : Mutex := .free
  value : σ

namespace Guarded

variable {σ : Type*} {s : Guarded σ}

def unlock (s : Guarded σ) : Guarded σ :=
  match s.mutex with
  | .held => { s with mutex := .free }
  | .free | .relocked => s

/-- A `lock_guard` at the start of a body, which may lock the mutex again. -/
def lockGuard (body : Guarded σ → Guarded σ) (s : Guarded σ) : Guarded σ :=
  match s.mutex with
  | .free => (body { s with mutex := .held }).unlock
  | .held => { s with mutex := .relocked }
  | .relocked => s

/-- A `lock_guard` at the start of a body which works on the value only. -/
def update (f : σ → σ) : Guarded σ → Guarded σ :=
  lockGuard fun s => { s with value := f s.value }

theorem lockGuard_of_free {body : Guarded σ → Guarded σ}
    (hfree : s.mutex = .free) :
    s.lockGuard body = (body { s with mutex := .held }).unlock := by
  unfold lockGuard
  rw [hfree]

theorem lockGuard_of_held {body : Guarded σ → Guarded σ}
    (hheld : s.mutex = .held) :
    s.lockGuard body = { s with mutex := .relocked } := by
  unfold lockGuard
  rw [hheld]

theorem lockGuard_of_relocked {body : Guarded σ → Guarded σ}
    (hrelocked : s.mutex = .relocked) : s.lockGuard body = s := by
  unfold lockGuard
  rw [hrelocked]

theorem update_of_free {f : σ → σ} (hfree : s.mutex = .free) :
    s.update f = ⟨.free, f s.value⟩ :=
  lockGuard_of_free hfree

theorem update_of_held {f : σ → σ} (hheld : s.mutex = .held) :
    s.update f = ⟨.relocked, s.value⟩ :=
  lockGuard_of_held hheld

end Guarded

end VynxHttp
