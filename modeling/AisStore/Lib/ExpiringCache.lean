import Mathlib.Logic.Function.Basic
import Mathlib.Data.Int.Notation
import Mathlib.Algebra.Order.Ring.Int

/-!
A cache whose entries expire a fixed time after they were last written, as
Guava's `CacheBuilder.expireAfterWrite` builds it.

An entry keeps the clock reading of its last write. A read at a later
reading sees the entry while strictly less than `ttl` has passed, and no
entry after that. `merge` is `ConcurrentMap.merge` on the map view: it
combines the new value with the one a read would see, and it counts as a
write whichever of the two survives.
-/

namespace AisStore.Lib

structure Entry (ν : Type) where
  value : ν
  writeTime : ℤ

/-- The entries of a cache, the expired ones included. -/
abbrev Cache (κ ν : Type) := κ → Option (Entry ν)

namespace Cache

variable {κ ν : Type}

def empty : Cache κ ν := fun _ => none

/-- `cache.asMap().get(k)` at clock reading `now`. -/
def get (ttl now : ℤ) (c : Cache κ ν) (k : κ) : Option ν :=
  match c k with
  | none => none
  | some e => if now - e.writeTime < ttl then some e.value else none

theorem get_of_none {ttl now : ℤ} {c : Cache κ ν} {k : κ} (h : c k = none) :
    get ttl now c k = none := by
  simp [get, h]

theorem get_of_some {ttl now : ℤ} {c : Cache κ ν} {k : κ} {e : Entry ν} (h : c k = some e) :
    get ttl now c k = if now - e.writeTime < ttl then some e.value else none := by
  simp [get, h]

theorem exists_of_get {ttl now : ℤ} {c : Cache κ ν} {k : κ} {v : ν}
    (h : get ttl now c k = some v) : ∃ e, c k = some e ∧ e.value = v := by
  cases hk : c k with
  | none => simp [get_of_none hk] at h
  | some e =>
    rw [get_of_some hk] at h
    split at h
    · exact ⟨e, rfl, Option.some.inj h⟩
    · cases h

variable [DecidableEq κ]

/-- `cache.asMap().merge(k, v, f)` at clock reading `now`; `f` receives the
old value first. -/
def merge (ttl now : ℤ) (c : Cache κ ν) (k : κ) (v : ν) (f : ν → ν → ν) : Cache κ ν :=
  Function.update c k <| some
    { value := match get ttl now c k with
        | none => v
        | some old => f old v
      writeTime := now }

theorem merge_other {ttl now : ℤ} {c : Cache κ ν} {k k' : κ} {v : ν} {f : ν → ν → ν}
    (h : k' ≠ k) : merge ttl now c k v f k' = c k' := by
  simp [merge, h]

/-- The entry a merge leaves behind was written by that merge. -/
theorem merge_self {ttl now : ℤ} {c : Cache κ ν} {k : κ} {v : ν} {f : ν → ν → ν} :
    ∃ value, merge ttl now c k v f k = some ⟨value, now⟩ := by
  simp [merge]

theorem merge_self_of_get {ttl now : ℤ} {c : Cache κ ν} {k : κ} {v old : ν} {f : ν → ν → ν}
    (h : get ttl now c k = some old) : merge ttl now c k v f k = some ⟨f old v, now⟩ := by
  simp [merge, h]

theorem merge_self_of_get_none {ttl now : ℤ} {c : Cache κ ν} {k : κ} {v : ν} {f : ν → ν → ν}
    (h : get ttl now c k = none) : merge ttl now c k v f k = some ⟨v, now⟩ := by
  simp [merge, h]

end Cache

end AisStore.Lib
