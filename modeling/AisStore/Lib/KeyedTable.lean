import Mathlib.Data.List.Nodup
import Mathlib.Data.List.Induction
import Mathlib.Logic.Function.Basic

/-!
Tables whose rows have a primary key, written by upsert.

A table is a list of rows no two of which share a key; the second fact is a
field, so every reader of a table may use it. An insert replaces the row
with the same key. What a sequence of inserts leaves behind is then
determined twice over: by the set of rows inserted, when the key
determines the row, and by the last insert for each key in general.
-/

namespace AisStore.Lib

/-- Rows with pairwise distinct keys. -/
structure KeyedTable {α κ : Type} (key : α → κ) where
  rows : List α
  nodup : (rows.map key).Nodup

namespace KeyedTable

variable {α κ : Type} [DecidableEq κ] {key : α → κ}

def empty : KeyedTable key := ⟨[], List.nodup_nil⟩

/-- Insert a row, replacing the row with its key if there is one. -/
def upsert (t : KeyedTable key) (r : α) : KeyedTable key where
  rows := t.rows.filter (fun x => key x ≠ key r) ++ [r]
  nodup := by
    rw [List.map_append, List.nodup_append]
    refine ⟨t.nodup.sublist (List.filter_sublist.map key), by simp, ?_⟩
    intro a ha b hb hab
    obtain ⟨x, hx, rfl⟩ := List.mem_map.mp ha
    simp only [List.map_cons, List.map_nil, List.mem_singleton] at hb
    have hne := (List.mem_filter.mp hx).2
    simp only [ne_eq, decide_not, Bool.not_eq_eq_eq_not, Bool.not_true, decide_eq_false_iff_not]
      at hne
    exact hne (hab.trans hb)

/-- The table a sequence of inserts leaves behind, starting from none. -/
def ofInserts (rs : List α) : KeyedTable key := rs.foldl upsert empty

@[simp] theorem rows_ofInserts_nil : (ofInserts [] : KeyedTable key).rows = [] := rfl

theorem ofInserts_concat (rs : List α) (r : α) :
    (ofInserts (rs ++ [r]) : KeyedTable key) = (ofInserts rs).upsert r := by
  simp [ofInserts]

theorem mem_upsert {t : KeyedTable key} {r x : α} :
    x ∈ (t.upsert r).rows ↔ x = r ∨ x ∈ t.rows ∧ key x ≠ key r := by
  simp [upsert, or_comm]

/-- Every row of the table was inserted. -/
theorem mem_of_mem_ofInserts {rs : List α} {x : α}
    (h : x ∈ (ofInserts rs : KeyedTable key).rows) : x ∈ rs := by
  induction rs using List.reverseRecOn with
  | nil => simp at h
  | append_singleton rs r ih =>
      rw [ofInserts_concat, mem_upsert] at h
      rcases h with rfl | h
      · simp
      · exact List.mem_append_left _ (ih h.1)

/-- No key is lost: some row has the key of every insert. -/
theorem exists_mem_ofInserts {rs : List α} {x : α} (h : x ∈ rs) :
    ∃ y ∈ (ofInserts rs : KeyedTable key).rows, key y = key x := by
  induction rs using List.reverseRecOn with
  | nil => simp at h
  | append_singleton rs r ih =>
      simp only [ofInserts_concat, mem_upsert]
      by_cases hkey : key x = key r
      · exact ⟨r, .inl rfl, hkey.symm⟩
      · have hx : x ∈ rs := by
          rcases List.mem_append.mp h with hx | hx
          · exact hx
          · simp only [List.mem_singleton] at hx
            exact absurd (congrArg key hx) hkey
        obtain ⟨y, hy, hyx⟩ := ih hx
        exact ⟨y, .inr ⟨hy, fun e => hkey (hyx ▸ e)⟩, hyx⟩

/-- The keys of a table are those of the inserts. -/
theorem exists_ofInserts {rs : List α} {P : κ → Prop} :
    (∃ x ∈ (ofInserts rs : KeyedTable key).rows, P (key x)) ↔ ∃ x ∈ rs, P (key x) := by
  constructor
  · rintro ⟨x, hx, h⟩
    exact ⟨x, mem_of_mem_ofInserts hx, h⟩
  · rintro ⟨x, hx, h⟩
    obtain ⟨y, hy, hyx⟩ : ∃ y ∈ (ofInserts rs : KeyedTable key).rows, key y = key x :=
      exists_mem_ofInserts hx
    exact ⟨y, hy, hyx ▸ h⟩

/-- When the key determines the row, the table holds exactly what was
inserted. -/
theorem mem_ofInserts {rs : List α} (hkey : ∀ x ∈ rs, ∀ y ∈ rs, key x = key y → x = y) {x : α} :
    x ∈ (ofInserts rs : KeyedTable key).rows ↔ x ∈ rs := by
  constructor
  · exact mem_of_mem_ofInserts
  · intro hx
    obtain ⟨y, hy, hyx⟩ :
        ∃ y ∈ (ofInserts rs : KeyedTable key).rows, key y = key x := exists_mem_ofInserts hx
    rw [hkey x hx y (mem_of_mem_ofInserts hy) hyx.symm]
    exact hy

/-! ### Looking up a key -/

/-- The row with a key. -/
def get (t : KeyedTable key) (k : κ) : Option α := t.rows.find? fun r => key r = k

theorem get_eq_some {t : KeyedTable key} {k : κ} {r : α} :
    t.get k = some r ↔ r ∈ t.rows ∧ key r = k := by
  constructor
  · intro h
    exact ⟨List.mem_of_find?_eq_some h, by simpa using List.find?_some h⟩
  · rintro ⟨hmem, rfl⟩
    obtain ⟨x, hx⟩ : ∃ x, t.get (key r) = some x := by
      rw [get, ← Option.isSome_iff_exists, List.find?_isSome]
      exact ⟨r, hmem, by simp⟩
    have hkey : key x = key r := by simpa using List.find?_some hx
    rw [hx, List.inj_on_of_nodup_map t.nodup (List.mem_of_find?_eq_some hx) hmem hkey]

/-- A table is a map from keys to rows, and an insert changes it at one key. -/
theorem get_upsert (t : KeyedTable key) (r : α) :
    (t.upsert r).get = Function.update t.get (key r) (some r) := by
  ext k x
  rw [get_eq_some, mem_upsert]
  by_cases hk : k = key r
  · subst hk
    rw [Function.update_self, Option.some_inj]
    constructor
    · rintro ⟨hx, hkey⟩
      exact (hx.resolve_right fun h => h.2 hkey).symm
    · rintro rfl
      exact ⟨.inl rfl, rfl⟩
  · rw [Function.update_of_ne hk, get_eq_some]
    constructor
    · rintro ⟨hx | hx, hkey⟩
      · exact absurd (hkey.symm.trans (congrArg key hx)) hk
      · exact ⟨hx.1, hkey⟩
    · rintro ⟨hx, hkey⟩
      exact ⟨.inr ⟨hx, hkey ▸ hk⟩, hkey⟩

omit [DecidableEq κ] in
theorem rows_nodup (t : KeyedTable key) : t.rows.Nodup := t.nodup.of_map key

end KeyedTable

end AisStore.Lib
