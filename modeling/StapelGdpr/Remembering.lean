import StapelGdpr.Lib.Recall
import StapelGdpr.Reregistration

/-!
# StapelGdpr.Remembering

Where a deletion has the identifiers from that it remembers: from the row of the account, which
it has read a few statements before. Whatever others have written since, the digest is of what
the row said then.
-/

namespace StapelGdpr

open Prog

variable {env : Env} {past past' : List (Memo Op Db)} {userId : UserId}

/-- A read of the thread has found the account with this identifier, and it is one to remember. -/
def Found (host : Host) (past : List (Memo Op Db)) (userId : UserId) (hashType : HashType)
    (value : String) : Prop :=
  value ≠ "" ∧ isTombstone host value = false ∧
    ∃ m ∈ past, m.label = .select ∧ ∃ user, m.before.user userId = some user ∧
      user.attr hashType.text = some value

/-- A statement of a thread with this past: it writes nothing, or the digest of an identifier of
the account found there. -/
def Remembers (env : Env) (userId : UserId) (past : List (Memo Op Db)) (op : Op) (a b : Db) :
    Prop :=
  b = a ∨ ∃ hashType value, op = .storeHash userId ∧ Found env.host past userId hashType value ∧
    b = { a with hashes := a.hashes ++ [newHash env userId hashType value] }

theorem Remembers.idle {op : Op} {a : Db} : Remembers env userId past op a a := .inl rfl

theorem Found.later {host : Host} {hashType : HashType} {value : String}
    (h : Found host past userId hashType value) (hpre : past <+: past') :
    Found host past' userId hashType value := by
  obtain ⟨hne, htomb, m, hm, huser⟩ := h
  exact ⟨hne, htomb, m, hpre.subset hm, huser⟩

theorem getOrCreateHash_recalls {hashType : HashType} {value : String}
    (h : Found env.host past userId hashType value) :
    Recalls (Remembers env userId) (fun _ _ => True)
      (getOrCreateHash env userId hashType value) past := by
  refine Recalls.query_bind fun s => ⟨.idle, ?_⟩
  have hnow := h.later (List.prefix_append past [⟨.select, s, s, true⟩])
  split
  · exact trivial
  · refine Recalls.tryCatch (Recalls.atomic fun db => ⟨.idle, fun created db' hok => ?_⟩)
      fun e past' _ => ?_
    · split at hok
      · exact absurd hok (by simp)
      · obtain ⟨-, rfl⟩ := Prod.mk.inj (Except.ok.inj hok)
        exact ⟨.inr ⟨hashType, value, rfl, hnow, rfl⟩, trivial⟩
    · split
      · refine Recalls.query_bind fun s' => ⟨.idle, ?_⟩
        split
        · exact trivial
        · exact trivial
      · exact trivial

theorem storeHashes_recalls {email phone : Option String}
    (h : ∀ hashType value, identifier hashType email phone = some value → value ≠ "" →
      isTombstone env.host value = false → Found env.host past userId hashType value) :
    Recalls (Remembers env userId) (fun _ _ => True) (storeHashes env userId email phone) past := by
  refine Recalls.foldlM fun written f hf past' hpre => ?_
  have hid : identifier f.1 email phone = f.2 := by
    simp only [List.mem_cons, List.not_mem_nil, or_false] at hf
    obtain rfl | rfl := hf <;> rfl
  cases hvalue : f.2 with
  | none => exact trivial
  | some value =>
      dsimp only
      split
      · exact trivial
      · rename_i hkeep
        have hfound := h f.1 value (hid.trans hvalue) (fun he => hkeep (.inl he))
          (by simpa using fun ht => hkeep (.inr ht))
        exact (getOrCreateHash_recalls (hfound.later hpre)).bind fun _ _ _ _ => trivial

/-- **What a deletion remembers it has read.** -/
theorem storeReregistrationHashes_recalls :
    Recalls (Remembers env userId) (fun _ _ => True)
      (storeReregistrationHashes env userId) past := by
  refine Recalls.tryCatch (Recalls.query_bind fun db => ⟨.idle, ?_⟩) fun _ _ _ => trivial
  cases huser : db.user userId with
  | none => exact trivial
  | some user =>
      refine Recalls.bind (storeHashes_recalls fun hashType value hid hne htomb => ?_)
        fun _ _ _ _ => trivial
      refine ⟨hne, htomb, ⟨.select, db, db, true⟩, by simp, rfl, user, huser, ?_⟩
      cases hashType with
      | email => exact hid
      | phone => exact hid

end StapelGdpr
