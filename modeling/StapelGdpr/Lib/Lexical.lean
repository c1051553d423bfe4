import Mathlib.Data.List.Infix

/-!
# Lexical normalisation of paths

A path is a text over an alphabet with a separator and a dot. Its segments are what stands
between the separators: an empty one and a single dot name nothing, two dots are the directory
above, any other enters a name. A `Location` is what is left when these are carried out on the
text alone, without a file system.
-/

namespace Lexical

variable {α : Type*} {sep dot : α} {path dir rest segment : List α} {segments : List (List α)}

/-- A segment that names something. -/
def IsName (dot : α) (segment : List α) : Prop :=
  segment ≠ [] ∧ segment ≠ [dot] ∧ segment ≠ [dot, dot]

/-- Where a path leads, from the root or from the directory it starts in. -/
structure Location (dot : α) where
  absolute : Bool
  /-- The directories above the start that the path climbs. -/
  up : Nat
  /-- The names entered there, the outermost first. -/
  names : List (List α)
  /-- There is nothing above the root. -/
  rooted : absolute = true → up = 0
  named : ∀ name ∈ names, IsName dot name

variable {l base : Location dot}

/-- `l` is `base`, or lies under it. -/
def Location.Within (l base : Location dot) : Prop :=
  l.absolute = base.absolute ∧ l.up = base.up ∧ base.names <+: l.names

theorem Location.within_refl (l : Location dot) : l.Within l := ⟨rfl, rfl, List.prefix_refl _⟩

theorem Location.Within.trans {m : Location dot} (h : l.Within base) (h' : base.Within m) :
    l.Within m :=
  ⟨h.1.trans h'.1, h.2.1.trans h'.2.1, h'.2.2.trans h.2.2⟩

/-! ### Segments -/

theorem infix_intercalate {glue : List α} (h : segment ∈ segments) :
    segment <:+: glue.intercalate segments := by
  induction segments with
  | nil => exact absurd h List.not_mem_nil
  | cons first others ih =>
      cases others with
      | nil =>
          obtain rfl := List.mem_singleton.mp h
          rw [List.intercalate_singleton]
      | cons second others =>
          rw [List.intercalate_cons_cons]
          rcases List.mem_cons.mp h with rfl | hothers
          · rw [List.append_assoc]
            exact (List.prefix_append _ _).isInfix
          · exact (ih hothers).trans (List.suffix_append _ _).isInfix

variable [DecidableEq α]

/-- A segment is a part of the path. -/
theorem infix_of_mem_splitOn (h : segment ∈ path.splitOn sep) : segment <:+: path := by
  have hpart : segment <:+: [sep].intercalate (path.splitOn sep) := infix_intercalate h
  rwa [List.intercalate_splitOn] at hpart

/-! ### Carrying out the segments -/

/-- The root, or the directory a path starts in. -/
def Location.start (dot : α) (absolute : Bool) : Location dot where
  absolute := absolute
  up := 0
  names := []
  rooted _ := rfl
  named _ h := absurd h List.not_mem_nil

/-- Two dots: the last name is left, or one directory climbed; the root is its own parent. -/
def Location.parent (l : Location dot) : Location dot where
  absolute := l.absolute
  up := if l.names = [] ∧ l.absolute = false then l.up + 1 else l.up
  names := l.names.dropLast
  rooted h := by
    rw [if_neg (fun hclimb => absurd h (by simp [hclimb.2]))]
    exact l.rooted h
  named name h := l.named name (List.mem_of_mem_dropLast h)

instance : DecidablePred (IsName dot) := fun segment => by
  unfold IsName
  infer_instance

/-- One segment carried out. -/
def Location.enter (l : Location dot) (segment : List α) : Location dot :=
  if segment = [dot, dot] then l.parent
  else if h : IsName dot segment then
    { l with
      names := l.names ++ [segment]
      named := by
        intro name hname
        rcases List.mem_append.mp hname with hold | hnew
        · exact l.named name hold
        · exact List.mem_singleton.mp hnew ▸ h }
  else l

/-- The lexical normalisation of a path. -/
def locate (sep dot : α) (path : List α) : Location dot :=
  (path.splitOn sep).foldl Location.enter (.start dot (path.head? = some sep))

/-! ### Paths that climb nothing -/

theorem Location.enter_name (h : IsName dot segment) :
    (l.enter segment).names = l.names ++ [segment] := by
  rw [enter, if_neg h.2.2, dif_pos h]

/-- Whatever is not the parent stays below. -/
theorem Location.enter_within (h : segment ≠ [dot, dot]) : (l.enter segment).Within l := by
  rw [enter, if_neg h]
  split
  · exact ⟨rfl, rfl, List.prefix_append _ _⟩
  · exact l.within_refl

theorem Location.foldl_within (h : [dot, dot] ∉ segments) :
    (segments.foldl Location.enter l).Within l := by
  induction segments generalizing l with
  | nil => exact l.within_refl
  | cons first others ih =>
      rw [List.mem_cons, not_or] at h
      exact (ih h.2).trans (enter_within (Ne.symm h.1))

/-- A path without ".." stays where it starts, or below. -/
theorem locate_within_start (h : [dot, dot] ∉ path.splitOn sep) :
    (locate sep dot path).Within (.start dot (path.head? = some sep)) :=
  Location.foldl_within h

/-- The segments after a separator are carried out where those before it lead. -/
theorem locate_append (hdir : dir ≠ []) : locate sep dot (dir ++ sep :: rest) =
    (rest.splitOn sep).foldl Location.enter (locate sep dot dir) := by
  rw [locate, List.splitOn_append_cons_self, List.foldl_append, locate]
  obtain ⟨c, dir, rfl⟩ := List.exists_cons_of_ne_nil hdir
  rfl

/-- What follows a directory, without "..", stays within it. -/
theorem locate_within (hdir : dir ≠ []) (h : [dot, dot] ∉ rest.splitOn sep) :
    (locate sep dot (dir ++ sep :: rest)).Within (locate sep dot dir) := by
  rw [locate_append hdir]
  exact Location.foldl_within h

/-- A single name is entered. -/
theorem locate_name_append (hdir : dir ≠ []) (hname : IsName dot segment) (hsep : sep ∉ segment) :
    (locate sep dot (dir ++ sep :: segment)).names = (locate sep dot dir).names ++ [segment] := by
  rw [locate_append hdir, List.splitOn_eq_singleton hsep]
  exact Location.enter_name hname

end Lexical
