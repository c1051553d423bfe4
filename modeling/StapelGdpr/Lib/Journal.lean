import StapelGdpr.Lib.Table

/-!
# A log beside a table

A transactional outbox is a log that grows in the same commits in which a table changes. What
ties the two together is one of three relations, each with a rule for every write of a table:

* `Journal` — the log, restricted to one kind of entry, lists the rows in key order;
* `Announces` — a row that has passed a milestone has its entry in the log;
* `Backs` — an entry of the log has its row in the table.
-/

namespace Table

variable {α β ε : Type} {t : Table α} {log new log' : List ε}

/-! ### Listing the rows -/

theorem entries_insert (t : Table α) (a : α) :
    (t.insert a).entries = t.entries ++ [⟨t.nextPk, a⟩] := by
  simp [entries, insert, nextPk, List.zipIdx_append]

theorem getElem?_entries (t : Table α) (i : Nat) :
    t.entries[i]? = (t.get? i).map fun a => ⟨i, a⟩ := by
  simp [entries, get?, List.getElem?_zipIdx, Option.map_map, Function.comp_def]

/-- A write that the view does not show. -/
theorem map_entries_modify {view : Stored α → β} {pk : Nat} {f : α → α}
    (hf : ∀ a, t.get? pk = some a → view ⟨pk, f a⟩ = view ⟨pk, a⟩) :
    (t.modify pk f).entries.map view = t.entries.map view := by
  refine List.ext_getElem? fun i => ?_
  rw [List.getElem?_map, List.getElem?_map, getElem?_entries, getElem?_entries, get?_modify]
  by_cases hi : i = pk
  · subst hi
    rw [if_pos rfl]
    cases hget : t.get? i with
    | none => rfl
    | some a => exact congrArg some (hf a hget)
  · rw [if_neg hi]

/-! ### Journals -/

/-- The entries of one kind, as `say` reads them, list the rows of the table in key order. -/
def Journal (say : ε → Option β) (view : Stored α → β) (log : List ε) (t : Table α) : Prop :=
  log.filterMap say = t.entries.map view

namespace Journal

variable {say : ε → Option β} {view : Stored α → β}

theorem empty : Journal say view [] ({} : Table α) := rfl

/-- A row and its entry in one commit. -/
theorem insert {a : α} (h : Journal say view log t)
    (hnew : new.filterMap say = [view ⟨t.nextPk, a⟩]) :
    Journal say view (log ++ new) (t.insert a) := by
  rw [Journal, List.filterMap_append, h, hnew, entries_insert, List.map_append]
  rfl

/-- Entries of other kinds. -/
theorem quiet (h : Journal say view log t) (hnew : new.filterMap say = []) :
    Journal say view (log ++ new) t := by
  rw [Journal, List.filterMap_append, h, hnew, List.append_nil]

theorem modify {pk : Nat} {f : α → α} (h : Journal say view log t)
    (hf : ∀ a, t.get? pk = some a → view ⟨pk, f a⟩ = view ⟨pk, a⟩) :
    Journal say view log (t.modify pk f) := by
  rw [Journal, map_entries_modify hf]
  exact h

end Journal

/-! ### Milestones -/

/-- Every row that has passed the milestone has an entry that tells of it. -/
def Announces (passed : α → Prop) (tells : ε → Stored α → Prop) (log : List ε) (t : Table α) :
    Prop :=
  ∀ pk a, t.get? pk = some a → passed a → ∃ x ∈ log, tells x ⟨pk, a⟩

namespace Announces

variable {passed : α → Prop} {tells : ε → Stored α → Prop}

theorem empty : Announces passed tells log ({} : Table α) :=
  fun _ _ h => absurd h (by simp [get?])

theorem grow (h : Announces passed tells log t) (hlog : log <+: log') :
    Announces passed tells log' t := by
  intro pk a ha hpassed
  obtain ⟨x, hx, htells⟩ := h pk a ha hpassed
  exact ⟨x, hlog.mem hx, htells⟩

/-- A row starts before its milestone. -/
theorem insert {b : α} (h : Announces passed tells log t) (hb : ¬ passed b) :
    Announces passed tells log (t.insert b) := by
  intro pk a ha hpassed
  rw [get?_insert] at ha
  by_cases hpk : pk = t.nextPk
  · rw [if_pos hpk] at ha
    obtain rfl := Option.some.inj ha
    exact absurd hpassed hb
  · rw [if_neg hpk] at ha
    exact h pk a ha hpassed

/-- A write either passes no milestone or comes with its entry. -/
theorem modify {pk : Nat} {f : α → α} (h : Announces passed tells log t)
    (hf : ∀ a, t.get? pk = some a → passed (f a) →
      (passed a ∧ ∀ x, tells x ⟨pk, a⟩ → tells x ⟨pk, f a⟩) ∨ ∃ x ∈ log, tells x ⟨pk, f a⟩) :
    Announces passed tells log (t.modify pk f) := by
  intro i b hb hpassed
  rw [get?_modify] at hb
  by_cases hi : i = pk
  · subst hi
    rw [if_pos rfl] at hb
    obtain ⟨a, ha, rfl⟩ := Option.map_eq_some_iff.mp hb
    rcases hf a ha hpassed with ⟨hold, hkeep⟩ | hnew
    · obtain ⟨x, hx, htells⟩ := h i a ha hold
      exact ⟨x, hx, hkeep x htells⟩
    · exact hnew
  · rw [if_neg hi] at hb
    exact h i b hb hpassed

end Announces

/-! ### Backing -/

/-- Every entry of the kind has a row it is about. -/
def Backs (kind : ε → Prop) (about : ε → Stored α → Prop) (log : List ε) (t : Table α) : Prop :=
  ∀ x ∈ log, kind x → ∃ pk a, t.get? pk = some a ∧ about x ⟨pk, a⟩

namespace Backs

variable {kind : ε → Prop} {about : ε → Stored α → Prop}

theorem empty : Backs kind about [] t := fun _ h => absurd h List.not_mem_nil

/-- Rows that keep what the entries are about, and a row for every new entry. -/
theorem step {R : Nat → α → α → Prop} {N : Nat → α → Prop} {t' : Table α}
    (h : Backs kind about log t) (he : Evolves R N t t')
    (hR : ∀ x pk a a', R pk a a' → about x ⟨pk, a⟩ → about x ⟨pk, a'⟩)
    (hnew : ∀ x ∈ new, kind x → ∃ pk a, t'.get? pk = some a ∧ about x ⟨pk, a⟩) :
    Backs kind about (log ++ new) t' := by
  intro x hx hkind
  rcases List.mem_append.mp hx with hold | hmem
  · obtain ⟨pk, a, ha, habout⟩ := h x hold hkind
    obtain ⟨a', ha', hkept⟩ := he.kept ha
    exact ⟨pk, a', ha', hR x pk a a' hkept habout⟩
  · exact hnew x hmem hkind

end Backs

end Table
