import Mathlib.Data.List.ReduceOption

/-!
A pool of so many threads, with a queue of unbounded length.

What is submitted is queued, and an idle thread takes up what has waited
longest (`take`). The thread is at it until it is `release`d. `unfinished`
collects what threads are at and what is queued: each thing that has been
submitted is there once until it is released.
-/

namespace AisStore.Lib

structure ThreadPool (α : Type) where
  /-- What each thread is at. -/
  threads : List (Option α)
  queue : List α

namespace ThreadPool

variable {α : Type}

def newFixedThreadPool (n : ℕ) : ThreadPool α := ⟨List.replicate n none, []⟩

def submit (pool : ThreadPool α) (xs : List α) : ThreadPool α :=
  { pool with queue := pool.queue ++ xs }

/-- A thread takes up what is first in the queue. -/
def take (pool : ThreadPool α) (thread : ℕ) : Option (ThreadPool α) :=
  match pool.threads[thread]?, pool.queue with
  | some none, x :: rest => some ⟨pool.threads.set thread (some x), rest⟩
  | _, _ => none

/-- The thread that is at this is idle again. -/
def release [DecidableEq α] (pool : ThreadPool α) (x : α) : ThreadPool α :=
  { pool with threads := pool.threads.map fun at' => if at' = some x then none else at' }

/-- What threads are at. -/
def working (pool : ThreadPool α) : List α := pool.threads.reduceOption

def unfinished (pool : ThreadPool α) : List α := pool.working ++ pool.queue

variable {pool pool' : ThreadPool α} {x : α}

@[simp] theorem unfinished_newFixedThreadPool (n : ℕ) :
    (newFixedThreadPool n : ThreadPool α).unfinished = [] := by
  simp [newFixedThreadPool, unfinished, working]

@[simp] theorem unfinished_submit (xs : List α) :
    (pool.submit xs).unfinished = pool.unfinished ++ xs :=
  (List.append_assoc ..).symm

/-- A place without a value, when it is given one. -/
theorem perm_reduceOption_set {l : List (Option α)} {i : ℕ} (h : l[i]? = some none) :
    (l.set i (some x)).reduceOption.Perm (x :: l.reduceOption) := by
  induction l generalizing i with
  | nil => cases h
  | cons o l ih =>
      cases i with
      | zero =>
          cases h
          exact .refl _
      | succ i =>
          cases o with
          | none => exact ih h
          | some y => exact ((ih h).cons y).trans (.swap x y _)

theorem take_eq_some {thread : ℕ} (h : pool.take thread = some pool') :
    ∃ x, pool.queue = x :: pool'.queue ∧ pool'.working.Perm (x :: pool.working) ∧
      pool'.threads.length = pool.threads.length := by
  unfold take at h
  split at h
  · rename_i x rest hidle hqueue
    cases h
    exact ⟨x, hqueue, perm_reduceOption_set hidle, List.length_set⟩
  · cases h

theorem perm_unfinished_take {thread : ℕ} (h : pool.take thread = some pool') :
    pool'.unfinished.Perm pool.unfinished := by
  obtain ⟨x, hqueue, hworking, -⟩ := take_eq_some h
  rw [unfinished, unfinished, hqueue]
  exact (hworking.append_right _).trans List.perm_middle.symm

variable [DecidableEq α]

@[simp] theorem length_threads_release : (pool.release x).threads.length = pool.threads.length :=
  List.length_map _

theorem working_release : (pool.release x).working = pool.working.filter (· ≠ x) := by
  unfold working release
  induction pool.threads with
  | nil => rfl
  | cons o l ih =>
      cases o with
      | none => exact ih
      | some y =>
          by_cases hy : y = x
          · simpa [hy] using ih
          · simpa [hy] using ih

/-- What is released is finished, and nothing else is. -/
theorem mem_unfinished_release (hnodup : pool.unfinished.Nodup) (hx : x ∈ pool.working) {y : α} :
    y ∈ (pool.release x).unfinished ↔ y ∈ pool.unfinished ∧ y ≠ x := by
  have hqueue : y ∈ pool.queue → y ≠ x := by
    rintro hy rfl
    exact (List.nodup_append.mp hnodup).2.2 _ hx _ hy rfl
  unfold unfinished
  rw [working_release, List.mem_append, List.mem_append, List.mem_filter]
  constructor
  · rintro (⟨hy, hne⟩ | hy)
    · exact ⟨.inl hy, of_decide_eq_true hne⟩
    · exact ⟨.inr hy, hqueue hy⟩
  · rintro ⟨hy | hy, hne⟩
    · exact .inl ⟨hy, decide_eq_true hne⟩
    · exact .inr hy

theorem nodup_unfinished_release (hnodup : pool.unfinished.Nodup) :
    (pool.release x).unfinished.Nodup := by
  refine hnodup.sublist ?_
  unfold unfinished
  rw [working_release]
  exact List.filter_sublist.append_right _

end ThreadPool

end AisStore.Lib
