import Mathlib.Data.List.Nodup

/-!
# Tables with a unique column

A table whose rows are told apart by a key, which no two rows share, and the one write such a
table is for: `update_or_create`, which changes the row of a key or adds it.
-/

/-- Rows with distinct keys. -/
structure KeyedTable {α κ : Type} (key : α → κ) where
  rows : List α
  unique : (rows.map key).Nodup

namespace KeyedTable

variable {α κ : Type} {key : α → κ}

/-- No rows. -/
def empty : KeyedTable key := ⟨[], List.nodup_nil⟩

variable [DecidableEq κ]

/-- The row of a key. -/
def get? (t : KeyedTable key) (k : κ) : Option α := t.rows.find? (key · = k)

theorem mem_of_get? {t : KeyedTable key} {k : κ} {a : α} (h : t.get? k = some a) :
    a ∈ t.rows ∧ key a = k :=
  ⟨List.mem_of_find?_eq_some h, by simpa using List.find?_some h⟩

theorem get?_eq_none {t : KeyedTable key} {k : κ} (h : t.get? k = none) : k ∉ t.rows.map key := by
  intro hmem
  obtain ⟨a, ha, rfl⟩ := List.mem_map.mp hmem
  simpa using List.find?_eq_none.mp h a ha

@[simp] theorem get?_empty (k : κ) : (empty : KeyedTable key).get? k = none := rfl

/-- A write of columns other than the key. -/
structure Write (key : α → κ) where
  apply : α → α
  kept : ∀ a, key (apply a) = key a

/-- Change the row of `k`, or add one: `blank k` with the same write. -/
def updateOrCreate (t : KeyedTable key) (blank : κ → α) (hblank : ∀ k, key (blank k) = k)
    (w : Write key) (k : κ) : KeyedTable key :=
  if h : k ∈ t.rows.map key then
    ⟨t.rows.map fun a => if key a = k then w.apply a else a, by
      have hkeys : (t.rows.map fun a => if key a = k then w.apply a else a).map key =
          t.rows.map key := by
        rw [List.map_map]
        refine List.map_congr_left fun a _ => ?_
        rw [Function.comp_apply]
        split
        · exact w.kept a
        · rfl
      rw [hkeys]
      exact t.unique⟩
  else
    ⟨t.rows ++ [w.apply (blank k)], by
      rw [List.map_append, List.map_singleton, w.kept, hblank]
      exact List.nodup_append.mpr ⟨t.unique, List.nodup_singleton k, fun a ha b hb =>
        fun heq => h (by rw [List.mem_singleton.mp hb] at heq; exact heq ▸ ha)⟩⟩

variable {t : KeyedTable key} {blank : κ → α} {hblank : ∀ k, key (blank k) = k} {w : Write key}
  {k : κ}

theorem get?_updateOrCreate (t : KeyedTable key) (blank : κ → α) (hblank : ∀ k, key (blank k) = k)
    (w : Write key) (k k' : κ) : (t.updateOrCreate blank hblank w k).get? k' =
      if k' = k then some (w.apply ((t.get? k).getD (blank k))) else t.get? k' := by
  unfold updateOrCreate
  split
  · rename_i hmem
    -- the write moves no key, so the search stops at the same row
    have hsame : ∀ a, key (if key a = k then w.apply a else a) = key a := by
      intro a
      split
      · exact w.kept a
      · rfl
    have hfind : (t.rows.map fun a => if key a = k then w.apply a else a).find? (key · = k') =
        (t.rows.find? (key · = k')).map fun a => if key a = k then w.apply a else a := by
      rw [List.find?_map]
      congr 2
      funext a
      simp only [Function.comp_apply, hsame]
    rw [get?, hfind]
    by_cases hk : k' = k
    · subst hk
      rw [if_pos rfl]
      cases hget : t.get? k' with
      | none => exact absurd hmem (get?_eq_none hget)
      | some a =>
          have hfound : t.rows.find? (key · = k') = some a := hget
          rw [hfound, Option.map_some, if_pos (mem_of_get? hget).2]
          rfl
    · rw [if_neg hk]
      cases hget : t.get? k' with
      | none =>
          have hfound : t.rows.find? (key · = k') = none := hget
          rw [hfound, Option.map_none]
      | some a =>
          have hfound : t.rows.find? (key · = k') = some a := hget
          have hkey : key a ≠ k := fun h => hk ((mem_of_get? hget).2.symm.trans h)
          rw [hfound, Option.map_some, if_neg hkey]
  · rename_i hno
    have hnone : t.get? k = none := by
      cases hget : t.get? k with
      | none => rfl
      | some a =>
          obtain ⟨hmem, hkey⟩ := mem_of_get? hget
          exact absurd (List.mem_map.mpr ⟨a, hmem, hkey⟩) hno
    have hnew : key (w.apply (blank k)) = k := (w.kept _).trans (hblank k)
    rw [get?, List.find?_append]
    by_cases hk : k' = k
    · subst hk
      have hfound : t.rows.find? (key · = k') = none := hnone
      rw [if_pos rfl, hfound, hnone, Option.none_or, List.find?_singleton,
        if_pos (by simpa using hnew), Option.getD_none]
    · rw [if_neg hk, List.find?_singleton,
        if_neg (by simpa [hnew] using fun h : k = k' => hk h.symm), Option.or_none]
      rfl

end KeyedTable
