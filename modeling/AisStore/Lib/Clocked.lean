import Mathlib.Data.Int.Notation
import Mathlib.Data.List.Basic
import Mathlib.Data.List.GetD
import Mathlib.Data.List.Induction

/-!
Runs of a stateful step over a list of inputs, with a clock.

The step sees the reading of a clock besides its state and its input; the
clock gives one reading for each position of the list. A property of whole
runs is proved by extending a run at its end, since that is where time
moves on: `runClocked_induction` is that rule.
-/

namespace AisStore.Lib

variable {σ α : Type} (step : ℤ → σ → α → σ) (clock : ℕ → ℤ) (init : σ)

def runClocked (xs : List α) : σ :=
  xs.zipIdx.foldl (fun s x => step (clock x.2) s x.1) init

theorem runClocked_concat (xs : List α) (x : α) :
    runClocked step clock init (xs ++ [x]) =
      step (clock xs.length) (runClocked step clock init xs) x := by
  simp [runClocked, List.zipIdx_append]

/-- A relation between the inputs so far and the state that holds at the
start and survives one more step holds of every run. -/
theorem runClocked_induction {P : List α → σ → Prop} (hnil : P [] init)
    (hstep : ∀ xs x s, P xs s → P (xs ++ [x]) (step (clock xs.length) s x)) (xs : List α) :
    P xs (runClocked step clock init xs) := by
  induction xs using List.reverseRecOn with
  | nil => exact hnil
  | append_singleton xs x ih =>
      rw [runClocked_concat]
      exact hstep xs x _ ih

/-- A run sees of the clock only as many readings as there are inputs. -/
theorem runClocked_congr {clock' : ℕ → ℤ} (xs : List α)
    (h : ∀ n < xs.length, clock n = clock' n) :
    runClocked step clock init xs = runClocked step clock' init xs := by
  induction xs using List.reverseRecOn with
  | nil => rfl
  | append_singleton xs x ih =>
      rw [List.length_append, List.length_singleton] at h
      rw [runClocked_concat, runClocked_concat, ih fun n hn => h n (by omega), h _ (by omega)]

/-- The readings of one clock, and after `n` of them those of another. -/
def spliceClock (n : ℕ) (clock clock' : ℕ → ℤ) (i : ℕ) : ℤ :=
  if i < n then clock i else clock' (i - n)

/-- Two runs, the second from where the first has come to, are one run. -/
theorem runClocked_append (clock' : ℕ → ℤ) (xs ys : List α) :
    runClocked step (spliceClock xs.length clock clock') init (xs ++ ys) =
      runClocked step clock' (runClocked step clock init xs) ys := by
  induction ys using List.reverseRecOn with
  | nil =>
      rw [List.append_nil]
      exact runClocked_congr step _ init xs fun n hn => if_pos hn
  | append_singleton ys y ih =>
      have hreading : spliceClock xs.length clock clock' (xs ++ ys).length = clock' ys.length := by
        rw [spliceClock, List.length_append, if_neg (by omega), Nat.add_sub_cancel_left]
      rw [← List.append_assoc, runClocked_concat, runClocked_concat, ih, hreading]

/-- A clock that has been read so often, and another from then on. -/
theorem getD_append_readings {readings : List ℤ} {n k i : ℕ} (hreadings : readings.length = n)
    (hi : i < n + k) :
    (readings ++ (List.range k).map clock).getD i 0 =
      spliceClock n (fun j => readings.getD j 0) clock i := by
  unfold spliceClock
  split
  next hlt => rw [List.getD_append _ _ _ _ (by omega)]
  next hge =>
    rw [List.getD_append_right _ _ _ _ (by omega), hreadings,
      List.getD_eq_getElem _ _ (by rw [List.length_map, List.length_range]; omega)]
    simp

/-- What a run collects, when every step adds to the end of it, is what its
steps add, in order. -/
theorem eq_flatMap_of_concat {β : Type} {out : List α → List β} {add : List α → α → List β}
    (hnil : out [] = []) (hconcat : ∀ xs x, out (xs ++ [x]) = out xs ++ add xs x) (xs : List α) :
    out xs = xs.zipIdx.flatMap fun x => add (xs.take x.2) x.1 := by
  induction xs using List.reverseRecOn with
  | nil => simpa using hnil
  | append_singleton xs last ih =>
      have hbefore : ∀ x ∈ xs.zipIdx, (xs ++ [last]).take x.2 = xs.take x.2 := by
        intro x hx
        obtain ⟨-, hlt, -⟩ := List.mem_zipIdx hx
        exact List.take_append_of_le_length (by omega)
      rw [hconcat, ih, List.zipIdx_append, List.flatMap_append]
      congr 1
      · apply List.flatMap_congr
        intro x hx
        rw [hbefore x hx]
      · simp

/-- A member of what a run collects was added by one of its steps. -/
theorem mem_iff_of_concat {β : Type} {out : List α → List β} {add : List α → α → List β}
    (hnil : out [] = []) (hconcat : ∀ xs x, out (xs ++ [x]) = out xs ++ add xs x) {xs : List α}
    {b : β} :
    b ∈ out xs ↔ ∃ before x after, xs = before ++ x :: after ∧ b ∈ add before x := by
  induction xs using List.reverseRecOn with
  | nil => simp [hnil]
  | append_singleton xs last ih =>
      rw [hconcat, List.mem_append, ih]
      constructor
      · rintro (⟨before, x, after, rfl, hb⟩ | hb)
        · exact ⟨before, x, after ++ [last], by simp, hb⟩
        · exact ⟨xs, last, [], rfl, hb⟩
      · rintro ⟨before, x, after, heq, hb⟩
        -- the step is the last one, or it lies in what comes before it
        rcases List.eq_nil_or_concat after with rfl | ⟨after', y, rfl⟩
        · obtain ⟨rfl, hlast⟩ := List.append_inj' heq rfl
          cases hlast
          exact .inr hb
        · have hsplit : xs ++ [last] = (before ++ x :: after') ++ [y] := by simp [heq]
          obtain ⟨rfl, -⟩ := List.append_inj' hsplit rfl
          exact .inl ⟨before, x, after', rfl, hb⟩

end AisStore.Lib
