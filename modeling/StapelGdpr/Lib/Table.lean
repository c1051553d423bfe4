import Mathlib.Data.List.Basic
import Mathlib.Data.List.Sort

/-!
# Append-only tables with automatic primary keys

The store shape an object-relational mapper gives its callers: rows are inserted,
changed in place and never removed, and the primary key of a row is its position.
Uniqueness of keys is then a fact about lists, not an invariant to carry.

* `Table.insert`, `Table.modify`, `Table.update` — one new row, one row by key, all
  rows that satisfy a filter;
* `Table.select`, `Table.first?` — the rows that satisfy a filter, in key order, each
  as a `Stored` copy (key and column values at the time of the read).

Every lemma below is stated through `Table.get?`, so a caller never unfolds a list.
-/

/-- A table: the row with key `i` is the `i`-th one. -/
structure Table (α : Type) where
  rows : List α := []
  deriving DecidableEq, Repr

/-- A row object as a program holds it: its key, and the column values it had when it
was read. Later writes to the table do not reach it. -/
structure Stored (α : Type) where
  pk : Nat
  row : α
  deriving DecidableEq, Repr

namespace Table

variable {α : Type}

/-- The row with key `pk`. -/
def get? (t : Table α) (pk : Nat) : Option α := t.rows[pk]?

/-- The key the next inserted row receives. -/
def nextPk (t : Table α) : Nat := t.rows.length

/-- Append one row; its key is the old `nextPk`. -/
def insert (t : Table α) (a : α) : Table α := ⟨t.rows ++ [a]⟩

/-- Append several rows in order. -/
def insertAll (t : Table α) (as : List α) : Table α := ⟨t.rows ++ as⟩

/-- Change the row with key `pk`, if there is one. -/
def modify (t : Table α) (pk : Nat) (f : α → α) : Table α := ⟨t.rows.modify pk f⟩

/-- Change every row that satisfies `p`. -/
def update (t : Table α) (p : α → Bool) (f : α → α) : Table α :=
  ⟨t.rows.map fun a => if p a then f a else a⟩

/-- Every row with its key, in key order. -/
def entries (t : Table α) : List (Stored α) := t.rows.zipIdx.map fun q => ⟨q.2, q.1⟩

/-- The rows that satisfy `p`, in key order. -/
def select (t : Table α) (p : α → Bool) : List (Stored α) := t.entries.filter fun o => p o.row

/-- The row with the least key among those that satisfy `p`. -/
def first? (t : Table α) (p : α → Bool) : Option (Stored α) := (t.select p).head?

/-- Does some row satisfy `p`? -/
def any (t : Table α) (p : α → Bool) : Bool := t.rows.any p

/-- The greatest value of `f` on a row; 0 when there is none. -/
def bound (t : Table α) (f : α → Nat) : Nat := t.rows.foldr (fun a n => max (f a) n) 0

/-! ### Reading back a write -/

theorem get?_lt {t : Table α} {pk : Nat} {a : α} (h : t.get? pk = some a) : pk < t.nextPk :=
  (List.getElem?_eq_some_iff.mp h).1

@[simp] theorem get?_nextPk (t : Table α) : t.get? t.nextPk = none := by
  simp [get?, nextPk]

theorem get?_eq_none {t : Table α} {pk : Nat} (h : t.nextPk ≤ pk) : t.get? pk = none :=
  List.getElem?_eq_none h

theorem get?_insert (t : Table α) (a : α) (pk : Nat) :
    (t.insert a).get? pk = if pk = t.nextPk then some a else t.get? pk := by
  unfold get? insert nextPk
  rw [List.getElem?_append]
  by_cases hlt : pk < t.rows.length
  · rw [if_pos hlt, if_neg (by omega)]
  · rw [if_neg hlt]
    by_cases heq : pk = t.rows.length
    · simp [heq]
    · rw [if_neg heq, List.getElem?_eq_none (l := t.rows) (by omega)]
      exact List.getElem?_eq_none (by simp; omega)

/-- An old row survives an insertion under its key. -/
theorem get?_insert_of_some {t : Table α} {pk : Nat} {a : α} (b : α)
    (h : t.get? pk = some a) : (t.insert b).get? pk = some a := by
  rw [get?_insert, if_neg (Nat.ne_of_lt (get?_lt h)), h]

@[simp] theorem get?_insert_nextPk (t : Table α) (a : α) :
    (t.insert a).get? t.nextPk = some a := by
  rw [get?_insert, if_pos rfl]

theorem get?_insertAll_of_some {t : Table α} {pk : Nat} {a : α} (bs : List α)
    (h : t.get? pk = some a) : (t.insertAll bs).get? pk = some a := by
  have hlt : pk < t.rows.length := get?_lt h
  rw [← h, get?, insertAll, List.getElem?_append_left hlt, get?]

/-- A row of the extended table is an old row or one of the appended ones. -/
theorem get?_insertAll {t : Table α} {bs : List α} {pk : Nat} {a : α}
    (h : (t.insertAll bs).get? pk = some a) : t.get? pk = some a ∨ a ∈ bs := by
  unfold get? insertAll at h
  rw [List.getElem?_append] at h
  split at h
  · exact Or.inl h
  · exact Or.inr (List.mem_of_getElem? h)

/-- A row that was not there is an appended one, at its place. -/
theorem get?_insertAll_new {t : Table α} {bs : List α} {pk : Nat} {a : α}
    (hno : t.get? pk = none) (h : (t.insertAll bs).get? pk = some a) :
    ∃ k, pk = t.nextPk + k ∧ bs[k]? = some a := by
  have hle : t.rows.length ≤ pk := List.getElem?_eq_none_iff.mp hno
  refine ⟨pk - t.rows.length, by rw [nextPk]; omega, ?_⟩
  unfold get? insertAll at h
  rwa [List.getElem?_append_right hle] at h

/-- Every appended row is found under some key that was free before. -/
theorem exists_get?_insertAll {t : Table α} {bs : List α} {a : α} (h : a ∈ bs) :
    ∃ pk, (t.insertAll bs).get? pk = some a := by
  obtain ⟨i, hi⟩ := List.mem_iff_getElem?.mp h
  refine ⟨t.rows.length + i, ?_⟩
  unfold get? insertAll
  rw [List.getElem?_append_right (by omega)]
  simpa using hi

theorem get?_modify (t : Table α) (pk : Nat) (f : α → α) (i : Nat) :
    (t.modify pk f).get? i = if i = pk then (t.get? i).map f else t.get? i := by
  unfold get? modify
  rw [List.getElem?_modify]
  by_cases h : i = pk
  · simp [h]
  · simp [h, Ne.symm h]

theorem get?_modify_of_ne {t : Table α} {pk i : Nat} (f : α → α) (h : i ≠ pk) :
    (t.modify pk f).get? i = t.get? i := by
  rw [get?_modify, if_neg h]

theorem get?_modify_self {t : Table α} {pk : Nat} {a : α} (f : α → α)
    (h : t.get? pk = some a) : (t.modify pk f).get? pk = some (f a) := by
  rw [get?_modify, if_pos rfl, h]; rfl

theorem get?_update (t : Table α) (p : α → Bool) (f : α → α) (i : Nat) :
    (t.update p f).get? i = (t.get? i).map fun a => if p a then f a else a := by
  simp [get?, update]

@[simp] theorem nextPk_insert (t : Table α) (a : α) : (t.insert a).nextPk = t.nextPk + 1 := by
  simp [nextPk, insert]

@[simp] theorem nextPk_modify (t : Table α) (pk : Nat) (f : α → α) :
    (t.modify pk f).nextPk = t.nextPk := by
  simp [nextPk, modify]

@[simp] theorem nextPk_update (t : Table α) (p : α → Bool) (f : α → α) :
    (t.update p f).nextPk = t.nextPk := by
  simp [nextPk, update]

/-! ### Queries -/

theorem mem_entries {t : Table α} {o : Stored α} : o ∈ t.entries ↔ t.get? o.pk = some o.row := by
  obtain ⟨pk, row⟩ := o
  simp [entries, get?, List.mem_zipIdx_iff_getElem?]

theorem mem_select {t : Table α} {p : α → Bool} {o : Stored α} :
    o ∈ t.select p ↔ t.get? o.pk = some o.row ∧ p o.row = true := by
  rw [select, List.mem_filter, mem_entries]

theorem first?_some {t : Table α} {p : α → Bool} {o : Stored α} (h : t.first? p = some o) :
    t.get? o.pk = some o.row ∧ p o.row = true :=
  mem_select.mp (List.mem_of_head? h)

theorem first?_none {t : Table α} {p : α → Bool} :
    t.first? p = none ↔ ∀ pk a, t.get? pk = some a → p a = false := by
  rw [first?, List.head?_eq_none_iff, List.eq_nil_iff_forall_not_mem]
  constructor
  · intro h pk a ha
    by_contra hp
    exact h ⟨pk, a⟩ (mem_select.mpr ⟨ha, by simpa using hp⟩)
  · intro h o ho
    obtain ⟨hget, hp⟩ := mem_select.mp ho
    rw [h _ _ hget] at hp
    exact absurd hp (by simp)

/-- If at most one row satisfies `p`, `first?` finds it. -/
theorem first?_eq_some {t : Table α} {p : α → Bool} {pk : Nat} {a : α}
    (ha : t.get? pk = some a) (hp : p a = true)
    (huniq : ∀ i b, t.get? i = some b → p b = true → i = pk) : t.first? p = some ⟨pk, a⟩ := by
  cases h : t.first? p with
  | none => rw [first?_none.mp h pk a ha] at hp; exact absurd hp (by simp)
  | some o =>
      obtain ⟨hget, hpo⟩ := first?_some h
      obtain ⟨i, b⟩ := o
      obtain rfl : i = pk := huniq i b hget hpo
      rw [ha] at hget
      exact congrArg some (congrArg (Stored.mk i) (Option.some.inj hget).symm)

theorem any_eq_true {t : Table α} {p : α → Bool} :
    t.any p = true ↔ ∃ pk a, t.get? pk = some a ∧ p a = true := by
  simp only [any, List.any_eq_true, get?, List.mem_iff_getElem?]
  constructor
  · rintro ⟨a, ⟨i, hi⟩, hp⟩
    exact ⟨i, a, hi, hp⟩
  · rintro ⟨i, a, hi, hp⟩
    exact ⟨a, ⟨i, hi⟩, hp⟩

theorem le_bound {t : Table α} {pk : Nat} {a : α} (f : α → Nat) (h : t.get? pk = some a) :
    f a ≤ t.bound f := by
  have hfold : ∀ rows : List α, a ∈ rows → f a ≤ rows.foldr (fun a n => max (f a) n) 0 := by
    intro rows
    induction rows with
    | nil => simp
    | cons b rest ih =>
        intro hmem
        rw [List.foldr_cons]
        rcases List.mem_cons.mp hmem with rfl | hrest
        · exact le_max_left _ _
        · exact (ih hrest).trans (le_max_right _ _)
  exact hfold t.rows (List.mem_of_getElem? h)

/-- The rows of `select`, without their keys. -/
theorem map_row_select (t : Table α) (p : α → Bool) : (t.select p).map (·.row) = t.rows.filter p := by
  have hidx : ∀ (l : List α) (k : Nat),
      (((l.zipIdx k).map fun q => (⟨q.2, q.1⟩ : Stored α)).filter fun o => p o.row).map (·.row) =
        l.filter p := by
    intro l
    induction l with
    | nil => intro k; rfl
    | cons a l ih =>
        intro k
        rw [List.zipIdx_cons, List.map_cons, List.filter_cons, List.filter_cons]
        by_cases hp : p a = true
        · rw [if_pos hp, if_pos hp, List.map_cons, ih]
        · rw [if_neg hp, if_neg hp, ih]
  exact hidx t.rows 0

/-- The keys of `select` come in increasing order, so no row is listed twice. -/
theorem pairwise_pk_select (t : Table α) (p : α → Bool) :
    (t.select p).Pairwise fun o o' => o.pk < o'.pk := by
  have hidx : ∀ (l : List α) (k : Nat),
      ((l.zipIdx k).map fun q => (⟨q.2, q.1⟩ : Stored α)).Pairwise fun o o' => o.pk < o'.pk := by
    intro l
    induction l with
    | nil => intro k; simp
    | cons a l ih =>
        intro k
        rw [List.zipIdx_cons, List.map_cons, List.pairwise_cons]
        refine ⟨fun o ho => ?_, ih (k + 1)⟩
        obtain ⟨q, hq, rfl⟩ := List.mem_map.mp ho
        have := List.le_snd_of_mem_zipIdx hq
        simp only
        omega
  exact (hidx t.rows 0).filter _

/-- Rows that agree under a condition, whatever else is in the tables, are selected alike. -/
theorem select_congr {t t' : Table α} {p : α → Bool}
    (h : ∀ pk, (t.get? pk).filter p = (t'.get? pk).filter p) : t.select p = t'.select p := by
  have hhalf : ∀ {t t' : Table α} {o : Stored α},
      (t.get? o.pk).filter p = (t'.get? o.pk).filter p → o ∈ t.select p → o ∈ t'.select p := by
    intro t t' o hrow ho
    have hsome := Option.filter_eq_some_iff.mpr (mem_select.mp ho)
    rw [hrow] at hsome
    exact mem_select.mpr (Option.filter_eq_some_iff.mp hsome)
  have hperm : (t.select p).Perm (t'.select p) := by
    have hnodup : ∀ t : Table α, (t.select p).Nodup := fun t =>
      (t.pairwise_pk_select p).imp fun hlt heq => by rw [heq] at hlt; exact lt_irrefl _ hlt
    exact (List.perm_ext_iff_of_nodup (hnodup t) (hnodup t')).mpr fun o =>
      ⟨hhalf (h o.pk), hhalf (h o.pk).symm⟩
  exact hperm.eq_of_pairwise (fun _ _ _ _ hlt hlt' => absurd hlt (not_lt.mpr hlt'.le))
    (t.pairwise_pk_select p) (t'.pairwise_pk_select p)

/-- A key is listed once if its row is listed, and not at all otherwise. -/
theorem countP_pk_select (t : Table α) (p : α → Bool) (pk : Nat) :
    (t.select p).countP (·.pk = pk) = if (t.get? pk).any p = true then 1 else 0 := by
  have hnodup : ((t.select p).map (·.pk)).Nodup :=
    List.pairwise_map.mpr ((t.pairwise_pk_select p).imp Nat.ne_of_lt)
  have hcount : (t.select p).countP (·.pk = pk) = ((t.select p).map (·.pk)).count pk := by
    rw [List.count, List.countP_map]
    exact List.countP_congr fun o _ => by simp
  rw [hcount]
  cases hget : t.get? pk with
  | none =>
      refine List.count_eq_zero_of_not_mem fun hmem => ?_
      obtain ⟨o, ho, rfl⟩ := List.mem_map.mp hmem
      rw [(mem_select.mp ho).1] at hget
      exact absurd hget (by simp)
  | some a =>
      by_cases hp : p a = true
      · rw [Option.any_some, if_pos hp]
        exact List.count_eq_one_of_mem hnodup
          (List.mem_map.mpr ⟨⟨pk, a⟩, mem_select.mpr ⟨hget, hp⟩, rfl⟩)
      · rw [Option.any_some, if_neg hp]
        refine List.count_eq_zero_of_not_mem fun hmem => hp ?_
        obtain ⟨o, ho, rfl⟩ := List.mem_map.mp hmem
        obtain ⟨hrow, ho'⟩ := mem_select.mp ho
        rw [hrow] at hget
        exact Option.some.inj hget ▸ ho'

/-! ### Evolution

How one table became another: every old row is kept under its key, changed as `R` says,
and every new row satisfies `N`. Each write of a table is an evolution; invariants of the
rows are then facts about `R` and `N`. -/

/-- `t'` is a later version of `t`. -/
structure Evolves (R : Nat → α → α → Prop) (N : Nat → α → Prop) (t t' : Table α) : Prop where
  kept : ∀ {pk a}, t.get? pk = some a → ∃ a', t'.get? pk = some a' ∧ R pk a a'
  added : ∀ {pk a}, t'.get? pk = some a → t.nextPk ≤ pk → N pk a

namespace Evolves

variable {R : Nat → α → α → Prop} {N : Nat → α → Prop} {t t' : Table α}

/-- A row of the later version is a changed old row or a new one. -/
theorem row (h : Evolves R N t t') {pk : Nat} {a' : α} (ha : t'.get? pk = some a') :
    (∃ a, t.get? pk = some a ∧ R pk a a') ∨ (t.get? pk = none ∧ N pk a') := by
  cases hold : t.get? pk with
  | some a =>
      obtain ⟨b, hb, hR⟩ := h.kept hold
      rw [ha] at hb
      exact Or.inl ⟨a, rfl, Option.some.inj hb ▸ hR⟩
  | none =>
      refine Or.inr ⟨rfl, h.added ha ?_⟩
      exact List.getElem?_eq_none_iff.mp hold

/-- Tables only grow. -/
theorem nextPk_le (h : Evolves R N t t') : t.nextPk ≤ t'.nextPk := by
  cases hn : t.nextPk with
  | zero => exact Nat.zero_le _
  | succ n =>
      have hlast : ∃ a, t.get? n = some a := by
        have hlt : n < t.rows.length := by
          have : t.rows.length = n + 1 := hn
          omega
        exact ⟨_, List.getElem?_eq_getElem hlt⟩
      obtain ⟨a, ha⟩ := hlast
      obtain ⟨a', ha', -⟩ := h.kept ha
      exact get?_lt ha'

/-- A version with nothing new has the same keys. -/
theorem nextPk_eq (h : Evolves R (fun _ _ => False) t t') : t'.nextPk = t.nextPk := by
  refine le_antisymm ?_ h.nextPk_le
  by_contra hlt
  have hrow : t.nextPk < t'.rows.length := Nat.lt_of_not_le hlt
  exact h.added (List.getElem?_eq_getElem hrow) le_rfl

theorem refl (hR : ∀ pk a, t.get? pk = some a → R pk a a) : Evolves R N t t where
  kept h := ⟨_, h, hR _ _ h⟩
  added h hle := absurd (get?_lt h) (Nat.not_lt.mpr hle)

theorem insert (hR : ∀ pk a, t.get? pk = some a → R pk a a) {b : α} (hN : N t.nextPk b) :
    Evolves R N t (t.insert b) where
  kept h := ⟨_, get?_insert_of_some b h, hR _ _ h⟩
  added {pk a} h hle := by
    rw [get?_insert] at h
    by_cases hpk : pk = t.nextPk
    · rw [if_pos hpk] at h
      obtain rfl := Option.some.inj h
      exact hpk ▸ hN
    · rw [if_neg hpk] at h
      exact absurd (get?_lt h) (Nat.not_lt.mpr hle)

theorem insertAll (hR : ∀ pk a, t.get? pk = some a → R pk a a) {bs : List α}
    (hN : ∀ pk, ∀ b ∈ bs, N pk b) : Evolves R N t (t.insertAll bs) where
  kept h := ⟨_, get?_insertAll_of_some bs h, hR _ _ h⟩
  added {pk a} h hle := by
    rcases get?_insertAll h with hold | hmem
    · exact absurd (get?_lt hold) (Nat.not_lt.mpr hle)
    · exact hN pk a hmem

theorem modify {pk : Nat} {f : α → α} (hR : ∀ i a, t.get? i = some a → i ≠ pk → R i a a)
    (hf : ∀ a, t.get? pk = some a → R pk a (f a)) : Evolves R N t (t.modify pk f) where
  kept {i a} h := by
    by_cases hi : i = pk
    · subst hi
      exact ⟨f a, get?_modify_self f h, hf a h⟩
    · exact ⟨a, (get?_modify_of_ne f hi).trans h, hR i a h hi⟩
  added {i a} h hle := by
    have hlt := get?_lt h
    rw [nextPk_modify] at hlt
    exact absurd hlt (Nat.not_lt.mpr hle)

theorem update {p : α → Bool} {f : α → α}
    (hR : ∀ i a, t.get? i = some a → R i a (if p a then f a else a)) :
    Evolves R N t (t.update p f) where
  kept {i a} h := ⟨_, by rw [get?_update, h]; rfl, hR i a h⟩
  added {i a} h hle := by
    have hlt := get?_lt h
    rw [nextPk_update] at hlt
    exact absurd hlt (Nat.not_lt.mpr hle)

/-- Two stages of different kinds, as one. -/
theorem comp {R' R'' : Nat → α → α → Prop} {N' N'' : Nat → α → Prop} {t'' : Table α}
    (h : Evolves R N t t') (h' : Evolves R' N' t' t'')
    (hR : ∀ pk a b c, R pk a b → R' pk b c → R'' pk a c)
    (hN : ∀ pk a b, N pk a → R' pk a b → N'' pk b) (hN' : ∀ pk a, N' pk a → N'' pk a) :
    Evolves R'' N'' t t'' where
  kept ha := by
    obtain ⟨b, hb, hab⟩ := h.kept ha
    obtain ⟨c, hc, hbc⟩ := h'.kept hb
    exact ⟨c, hc, hR _ _ _ _ hab hbc⟩
  added {pk a} ha hle := by
    rcases h'.row ha with ⟨b, hb, hba⟩ | ⟨-, hnew⟩
    · exact hN pk b a (h.added hb hle) hba
    · exact hN' pk a hnew

theorem trans {t'' : Table α} (h : Evolves R N t t') (h' : Evolves R N t' t'')
    (hR : ∀ pk a b c, R pk a b → R pk b c → R pk a c) (hN : ∀ pk a b, N pk a → R pk a b → N pk b) :
    Evolves R N t t'' :=
  h.comp h' hR hN fun _ _ hnew => hnew

theorem mono {R' : Nat → α → α → Prop} {N' : Nat → α → Prop} (h : Evolves R N t t')
    (hR : ∀ pk a a', R pk a a' → R' pk a a') (hN : ∀ pk a, N pk a → N' pk a) :
    Evolves R' N' t t' where
  kept ha := (h.kept ha).imp fun _ ha' => ⟨ha'.1, hR _ _ _ ha'.2⟩
  added ha hle := hN _ _ (h.added ha hle)

end Evolves

end Table
