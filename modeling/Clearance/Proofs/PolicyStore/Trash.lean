import Clearance.Proofs.PolicyStore

/-!
# One map with a trash

A policy store is edited by saving, deleting, restoring and deleting for good, one policy at a time or
several. `Edit.entryAfter` says what that comes to for a single name, from nothing but what was on file
under it: a policy is live or in the trash, is filed anew by a save, and is gone when it is deleted for
good. `perform_of_fits` proves that an edit does this under every name, and `perform_of_not_fits` that an
edit the store cannot make is refused and changes nothing.

All else follows from these two. Along any edits every policy stays on file under its own name
(`Keyed.run`), and that is what makes the listing of the trash tell which names are in it.
`map_with_trash` puts together what can be said of a store that began empty and of its next edit.
-/

namespace Clearance

/-- Whether a policy can be filed: it has a name, and that is not empty. -/
def Policy.IsNamed (p : Policy) : Prop := ∃ name, p.name = some name ∧ name ≠ ""

/-- Whether a policy is on file as it should be: under its own name, which is not empty. -/
def FiledPolicy.IsUnder (f : FiledPolicy) (name : String) : Prop :=
  name ≠ "" ∧ f.policy.name = some name

namespace PolicyStore

/-- What can be done to a policy store. -/
inductive Edit where
  | save (p : Policy)
  | saveMany (ps : List Policy)
  | delete (name : String)
  | deleteMany (names : List String)
  | restore (name : String)
  | forceDelete (name : String)

/-- What an edit answers. -/
inductive Answer where
  | done
  | counted (n : Nat)
  | refused (e : StoreError)

/-- What an edit that may be refused answers, and the store after it. -/
def settled (s : PolicyStore) : Except StoreError PolicyStore → Answer × PolicyStore
  | .ok s' => (.done, s')
  | .error e => (.refused e, s)

/-- What an edit answers, and the store after it. -/
def perform (s : PolicyStore) : Edit → Answer × PolicyStore
  | .save p => s.settled (s.save p)
  | .saveMany ps => s.settled (s.saveMany ps)
  | .delete name => s.settled (s.delete name)
  | .deleteMany names => (.counted (s.deleteMany names).1, (s.deleteMany names).2)
  | .restore name => s.settled (s.restore name)
  | .forceDelete name => s.settled (s.forceDelete name)

/-- The store after a number of edits, some of which may have been refused. -/
def edited (s : PolicyStore) (edits : List Edit) : PolicyStore :=
  edits.foldl (fun s e => (s.perform e).2) s

namespace Edit

/-- Whether a store can make an edit. -/
def Fits (s : PolicyStore) : Edit → Prop
  | save p => p.IsNamed
  | saveMany ps => ∀ p ∈ ps, p.IsNamed
  | delete name => ∃ p, s.get? name = some p
  | deleteMany _ => True
  | restore name => ∃ p, s.filed.get? name = some ⟨p, true⟩
  | forceDelete name => ∃ f, s.filed.get? name = some f

/-- Why a store refuses an edit it cannot make. -/
def reason : Edit → StoreError
  | save _ => .invalid "Policy name cannot be empty"
  | saveMany _ => .invalid "Policy name cannot be empty"
  | _ => .notFound

/-- The names that an edit is given. -/
def names : Edit → List String
  | save p => p.name.toList
  | saveMany ps => ps.filterMap (·.name)
  | delete name => [name]
  | deleteMany names => names
  | restore name => [name]
  | forceDelete name => [name]

/-- What is on file under a name when a policy has been saved. -/
def saved (name : String) (old : Option FiledPolicy) (p : Policy) : Option FiledPolicy :=
  if p.name = some name then some ⟨p, false⟩ else old

/-- What is on file under a name when some names have been deleted. -/
def dropped (name : String) (names : List String) (old : Option FiledPolicy) : Option FiledPolicy :=
  old.map fun f => if name ∈ names then { f with trashed := true } else f

/-- What is on file under a name after an edit, going by what was. -/
def entryAfter (name : String) (old : Option FiledPolicy) : Edit → Option FiledPolicy
  | save p => saved name old p
  | saveMany ps => ps.foldl (saved name) old
  | delete gone => dropped name [gone] old
  | deleteMany names => dropped name names old
  | restore back => old.map fun f => if name = back then { f with trashed := false } else f
  | forceDelete gone => if name = gone then none else old

end Edit

section Operations

variable {s s' : PolicyStore} {p : Policy} {name : String} {ps : List Policy} {names : List String}

/-- To file a policy under a name changes what is filed under that name alone. -/
theorem get?_put (s : PolicyStore) (name k : String) (p : Policy) (b : Bool) :
    (s.put name p b).filed.get? k = if k = name then some ⟨p, b⟩ else s.filed.get? k :=
  s.filed.get?_insert name k ⟨p, b⟩

theorem edited_cons (s : PolicyStore) (e : Edit) (edits : List Edit) :
    s.edited (e :: edits) = (s.perform e).2.edited edits := rfl

/-- A store is what is on file in it. -/
theorem ext_filed (h : ∀ k, s.filed.get? k = s'.filed.get? k) : s = s' :=
  congrArg PolicyStore.mk (Register.ext_get? h)

/-- A policy is found if it is filed and not in the trash. -/
theorem get?_eq_some_iff : s.get? name = some p ↔ s.filed.get? name = some ⟨p, false⟩ := by
  unfold get?
  cases s.filed.get? name with
  | none => simp
  | some f =>
    obtain ⟨q, trashed⟩ := f
    cases trashed <;> simp

/-- A policy is filed under the name that it has. -/
theorem nameFor_of_name (hname : p.name = some name) (hne : name ≠ "") : nameFor p = .ok name := by
  unfold nameFor
  rw [hname]
  exact if_neg hne

/-- A policy without a name, or with an empty one, cannot be filed. -/
theorem nameFor_of_not_isNamed (h : ¬ p.IsNamed) :
    nameFor p = .error (.invalid "Policy name cannot be empty") := by
  unfold nameFor
  cases hname : p.name with
  | none => rfl
  | some name => exact if_pos (Decidable.byContradiction fun hne => h ⟨name, hname, hne⟩)

/-- A policy with a name is saved under it, live. -/
theorem save_of_name (s : PolicyStore) (hname : p.name = some name) (hne : name ≠ "") :
    s.save p = .ok (s.put name p false) := by
  unfold save
  rw [nameFor_of_name hname hne]
  rfl

theorem perform_save (s : PolicyStore) (hname : p.name = some name) (hne : name ≠ "") :
    s.perform (.save p) = (.done, s.put name p false) := by
  rw [perform, s.save_of_name hname hne]
  rfl

/-- A policy without a name is not saved. -/
theorem save_of_not_isNamed (s : PolicyStore) (h : ¬ p.IsNamed) :
    s.save p = .error (.invalid "Policy name cannot be empty") := by
  unfold save
  rw [nameFor_of_not_isNamed h]
  rfl

/-- The first of several policies is saved first, and nothing is if it cannot be. -/
theorem saveMany_cons (s : PolicyStore) (p : Policy) (ps : List Policy) :
    s.saveMany (p :: ps) = (s.save p).bind (·.saveMany ps) := by
  unfold saveMany save
  rw [List.mapM_cons]
  cases nameFor p with
  | error e => rfl
  | ok name =>
    -- all names are checked before anything is filed, so also on the left a later refusal is the answer
    cases ps.mapM fun p => (nameFor p).map (·, p) with
    | error e => simp [Except.map, Except.bind, bind]
    | ok named => simp [Except.map, Except.bind, bind, pure, Except.pure]

/-- Several policies that all have names are saved one after another. -/
theorem saveMany_of_named (s : PolicyStore) (h : ∀ p ∈ ps, p.IsNamed) :
    s.saveMany ps = .ok (s.edited (ps.map .save)) := by
  induction ps generalizing s with
  | nil => rfl
  | cons p ps ih =>
    obtain ⟨⟨name, hname, hne⟩, hps⟩ := List.forall_mem_cons.1 h
    rw [saveMany_cons, s.save_of_name hname hne, List.map_cons, edited_cons, s.perform_save hname hne]
    exact ih _ hps

/-- If one of several has no name, none is saved. -/
theorem saveMany_of_not_named (s : PolicyStore) (h : ¬ ∀ p ∈ ps, p.IsNamed) :
    s.saveMany ps = .error (.invalid "Policy name cannot be empty") := by
  induction ps generalizing s with
  | nil => exact absurd (List.forall_mem_nil _) h
  | cons p ps ih =>
    rw [saveMany_cons]
    by_cases hp : p.IsNamed
    · obtain ⟨name, hname, hne⟩ := hp
      rw [s.save_of_name hname hne]
      exact ih _ fun hps => h (List.forall_mem_cons.2 ⟨⟨name, hname, hne⟩, hps⟩)
    · rw [s.save_of_not_isNamed hp]
      rfl

/-- What is filed under a name after a policy has been saved. -/
theorem get?_put_live (s : PolicyStore) (hname : p.name = some name) (k : String) :
    (s.put name p false).filed.get? k = Edit.saved k (s.filed.get? k) p := by
  rw [get?_put, Edit.saved, hname]
  simp only [Option.some.injEq, eq_comm]

/-- What is under a name when several policies have been saved one after another. -/
theorem get?_saves (s : PolicyStore) (h : ∀ p ∈ ps, p.IsNamed) (k : String) :
    (s.edited (ps.map .save)).filed.get? k = ps.foldl (Edit.saved k) (s.filed.get? k) := by
  induction ps generalizing s with
  | nil => rfl
  | cons p ps ih =>
    obtain ⟨⟨name, hname, hne⟩, hps⟩ := List.forall_mem_cons.1 h
    rw [List.map_cons, edited_cons, s.perform_save hname hne, List.foldl_cons,
      ← s.get?_put_live hname]
    exact ih _ hps

/-- To delete a live policy puts it in the trash. -/
theorem delete_of_live (h : s.filed.get? name = some ⟨p, false⟩) :
    s.delete name = .ok (s.put name p true) := by
  simp only [delete, h]

/-- What is not live cannot be deleted. -/
theorem delete_of_not_live (h : ¬ ∃ p, s.get? name = some p) : s.delete name = .error .notFound := by
  unfold delete
  split
  next p hp => exact absurd ⟨p, get?_eq_some_iff.2 hp⟩ h
  next => rfl

/-- A name that is live counts, and the rest is deleted with it in the trash. -/
theorem deleteMany_of_live (h : s.filed.get? name = some ⟨p, false⟩) :
    s.deleteMany (name :: names) =
      (((s.put name p true).deleteMany names).1 + 1, ((s.put name p true).deleteMany names).2) := by
  rw [deleteMany, delete_of_live h]

/-- A name that is not live is passed over when many are deleted. -/
theorem deleteMany_of_not_live (h : ¬ ∃ p, s.get? name = some p) :
    s.deleteMany (name :: names) = s.deleteMany names := by
  rw [deleteMany, delete_of_not_live h]

/-- What is under a name when several names have been deleted. -/
theorem get?_deleteMany (s : PolicyStore) (names : List String) (k : String) :
    (s.deleteMany names).2.filed.get? k = Edit.dropped k names (s.filed.get? k) := by
  induction names generalizing s with
  | nil =>
    rw [deleteMany, Edit.dropped]
    cases s.filed.get? k <;> simp
  | cons name names ih =>
    by_cases hlive : ∃ p, s.get? name = some p
    · obtain ⟨p, hp⟩ := hlive
      have hfiled := get?_eq_some_iff.1 hp
      rw [deleteMany_of_live hfiled, ih, get?_put]
      -- if the name comes again, it is met in the trash, and stays there
      by_cases hk : k = name
      · simp [Edit.dropped, hk, hfiled]
      · simp [Edit.dropped, hk]
    · rw [deleteMany_of_not_live hlive, ih]
      -- a name that is passed over has nothing on file or is in the trash, as it should be in the end
      by_cases hk : k = name
      · subst hk
        cases hf : s.filed.get? k with
        | none => rfl
        | some f =>
          obtain ⟨q, trashed⟩ := f
          cases trashed with
          | false => exact absurd ⟨q, get?_eq_some_iff.2 hf⟩ hlive
          | true => simp [Edit.dropped]
      · simp [Edit.dropped, hk]

/-- A policy that is moved to the trash is no longer live, and the others are what they were. -/
theorem isSome_get?_put_trashed (s : PolicyStore) (name k : String) (p : Policy) :
    ((s.put name p true).get? k).isSome = ((s.get? k).isSome && !k == name) := by
  unfold get?
  rw [get?_put]
  by_cases hk : k = name <;> simp [hk]

/-- Names are counted that were live, each once. -/
theorem deleteMany_count (s : PolicyStore) (names : List String) :
    (s.deleteMany names).1 = ((names.filter fun name => (s.get? name).isSome).eraseDups).length := by
  induction names generalizing s with
  | nil => rfl
  | cons name names ih =>
    by_cases hlive : ∃ p, s.get? name = some p
    · obtain ⟨p, hp⟩ := hlive
      -- the rest is counted in a store where this name no longer is live, so it is not counted again
      have hrest : (names.filter fun n => ((s.put name p true).get? n).isSome) =
          (names.filter fun n => (s.get? n).isSome).filter (!· == name) := by
        simp only [isSome_get?_put_trashed, List.filter_filter, Bool.and_comm]
      rw [deleteMany_of_live (get?_eq_some_iff.1 hp), ih, hrest,
        List.filter_cons_of_pos (by rw [hp]; rfl), List.eraseDups_cons, List.length_cons]
    · have hnone : s.get? name = none := by
        simpa [Option.eq_none_iff_forall_ne_some] using hlive
      rw [deleteMany_of_not_live hlive, ih, List.filter_cons_of_neg (by simp [hnone])]

/-- To restore a policy takes it out of the trash as it was. -/
theorem restore_of_trashed (h : s.filed.get? name = some ⟨p, true⟩) :
    s.restore name = .ok (s.put name p false) := by
  simp only [restore, h]

/-- What is not in the trash cannot be restored. -/
theorem restore_of_not_trashed (h : ¬ ∃ p, s.filed.get? name = some ⟨p, true⟩) :
    s.restore name = .error .notFound := by
  unfold restore
  split
  next p hp => exact absurd ⟨p, hp⟩ h
  next => rfl

/-- A policy that comes back from the trash is filed as it was before it went there. -/
theorem restore_put_trashed (h : s.filed.get? name = some ⟨p, false⟩) :
    (s.put name p true).restore name = .ok s := by
  rw [restore_of_trashed (by rw [get?_put, if_pos rfl])]
  refine congrArg _ (ext_filed fun k => ?_)
  rw [get?_put, get?_put]
  by_cases hk : k = name
  · rw [if_pos hk, hk, h]
  · rw [if_neg hk, if_neg hk]

/-- To delete a policy for good removes it, live or not. -/
theorem forceDelete_of_filed {f : FiledPolicy} (h : s.filed.get? name = some f) :
    s.forceDelete name = .ok ⟨s.filed.erase name⟩ :=
  if_pos (by rw [Register.contains, h]; rfl)

/-- What is not filed cannot be deleted for good. -/
theorem forceDelete_of_not_filed (h : ¬ ∃ f, s.filed.get? name = some f) :
    s.forceDelete name = .error .notFound :=
  if_neg fun hmem => h (Option.isSome_iff_exists.1 hmem)

/-- The trash lists what is filed as trashed, under whatever name. -/
theorem mem_trashed : p ∈ s.trashed ↔ ∃ name, s.filed.get? name = some ⟨p, true⟩ := by
  unfold trashed
  simp only [List.mem_map, List.mem_filter]
  constructor
  · rintro ⟨⟨name, q, b⟩, ⟨he, hb⟩, rfl⟩
    obtain rfl : b = true := hb
    exact ⟨name, (Entries.get?_eq_some_iff s.filed.ordered).2 he⟩
  · rintro ⟨name, h⟩
    exact ⟨(name, ⟨p, true⟩), ⟨Entries.mem_of_get? h, rfl⟩, rfl⟩

end Operations

section Step

variable {s : PolicyStore} {e : Edit} {name : String} {old : Option FiledPolicy}

/-- An edit that the store can make is made, and does under every name what it should. -/
theorem perform_of_fits (h : e.Fits s) :
    (∀ err, (s.perform e).1 ≠ .refused err) ∧
      ∀ k, (s.perform e).2.filed.get? k = e.entryAfter k (s.filed.get? k) := by
  cases e with
  | save p =>
    obtain ⟨name, hname, hne⟩ := h
    rw [s.perform_save hname hne]
    exact ⟨nofun, s.get?_put_live hname⟩
  | saveMany ps =>
    rw [perform, s.saveMany_of_named h]
    exact ⟨nofun, s.get?_saves h⟩
  | delete name =>
    obtain ⟨p, hp⟩ := h
    have hfiled := get?_eq_some_iff.1 hp
    rw [perform, delete_of_live hfiled]
    refine ⟨nofun, fun k => (s.get?_put name k p true).trans ?_⟩
    by_cases hk : k = name <;> simp [Edit.entryAfter, Edit.dropped, hk, hfiled]
  | deleteMany names => exact ⟨nofun, s.get?_deleteMany names⟩
  | restore name =>
    obtain ⟨p, hp⟩ := h
    rw [perform, restore_of_trashed hp]
    refine ⟨nofun, fun k => (s.get?_put name k p false).trans ?_⟩
    by_cases hk : k = name <;> simp [Edit.entryAfter, hk, hp]
  | forceDelete name =>
    obtain ⟨f, hf⟩ := h
    rw [perform, forceDelete_of_filed hf]
    exact ⟨nofun, s.filed.get?_erase name⟩

/-- An edit that the store cannot make is refused, and nothing changes. -/
theorem perform_of_not_fits (h : ¬ e.Fits s) : s.perform e = (.refused e.reason, s) := by
  cases e with
  | save p => exact congrArg s.settled (s.save_of_not_isNamed h)
  | saveMany ps => exact congrArg s.settled (s.saveMany_of_not_named h)
  | delete name => exact congrArg s.settled (delete_of_not_live h)
  | deleteMany names => exact absurd trivial h
  | restore name => exact congrArg s.settled (restore_of_not_trashed h)
  | forceDelete name => exact congrArg s.settled (forceDelete_of_not_filed h)

/-- An edit that is refused has changed nothing. -/
theorem perform_of_refused {err : StoreError} (h : (s.perform e).1 = .refused err) :
    (s.perform e).2 = s := by
  by_cases hfits : e.Fits s
  · exact absurd h ((perform_of_fits hfits).1 err)
  · rw [perform_of_not_fits hfits]

/-- Saving many policies leaves an entry alone that none of them is named for. -/
theorem Edit.saves_of_not_mem {ps : List Policy} (h : ∀ p ∈ ps, p.name ≠ some name) :
    ps.foldl (saved name) old = old := by
  induction ps with
  | nil => rfl
  | cons p ps ih =>
    obtain ⟨hp, hps⟩ := List.forall_mem_cons.1 h
    rw [List.foldl_cons, show saved name old p = old from if_neg hp]
    exact ih hps

/-- Deleting many names leaves an entry alone whose name is not among them. -/
theorem Edit.dropped_of_not_mem {names : List String} (h : name ∉ names) :
    dropped name names old = old := by
  unfold dropped
  cases old with
  | none => rfl
  | some f => exact congrArg some (if_neg h)

/-- An edit has no effect under a name it is not given. -/
theorem Edit.entryAfter_of_not_mem (h : name ∉ e.names) : e.entryAfter name old = old := by
  cases e with
  | save p => exact if_neg fun hname => h (Option.mem_toList.2 hname)
  | saveMany ps => exact saves_of_not_mem fun p hp hname => h (List.mem_filterMap.2 ⟨p, hp, hname⟩)
  | delete gone => exact dropped_of_not_mem h
  | deleteMany names => exact dropped_of_not_mem h
  | restore back =>
    have hne : name ≠ back := fun he => h (List.mem_singleton.2 he)
    unfold entryAfter
    cases old with
    | none => rfl
    | some f => exact congrArg some (if_neg hne)
  | forceDelete gone => exact if_neg fun he => h (List.mem_singleton.2 he)

/-- An edit leaves every entry alone that it does not name. -/
theorem perform_frame (h : name ∉ e.names) :
    (s.perform e).2.filed.get? name = s.filed.get? name := by
  by_cases hfits : e.Fits s
  · rw [(perform_of_fits hfits).2, Edit.entryAfter_of_not_mem h]
  · rw [perform_of_not_fits hfits]

end Step

/-- Whether a policy is found under a name. -/
def HoldsLive (s : PolicyStore) (name : String) : Prop := ∃ p, s.get? name = some p

/-- Whether the trash lists a policy of that name. -/
def HoldsTrashed (s : PolicyStore) (name : String) : Prop := ∃ p ∈ s.trashed, p.name = some name

/-- Every policy is on file under its own name, which is not empty. -/
def Keyed (s : PolicyStore) : Prop := ∀ name f, s.filed.get? name = some f → f.IsUnder name

/-- What is true of a store at all times. -/
structure Orderly (s : PolicyStore) : Prop where
  keyed : s.Keyed
  /-- Under a name on file there is a live policy or one in the trash, and under no other. -/
  stored : ∀ name, name ∈ s.filed.keys ↔ s.HoldsLive name ∨ s.HoldsTrashed name
  /-- There is never both. -/
  apart : ∀ name, ¬ (s.HoldsLive name ∧ s.HoldsTrashed name)
  /-- What is loaded for a subject are rules of live policies, and all that concern it. -/
  used : ∀ subject r, r ∈ (s.policiesFor subject).rules ↔
    (∃ name p, s.get? name = some p ∧ r ∈ p.rules) ∧ concerns subject r = true
  /-- The trash is listed in the order of the names, each of which occurs once. -/
  listed : s.trashed.Pairwise fun p q => ∃ n m, p.name = some n ∧ q.name = some m ∧ n < m

/-- What is true of the next edit of a store. -/
structure Obeys (s : PolicyStore) : Prop where
  /-- An edit that is refused leaves the whole store unchanged. -/
  unchanged : ∀ e err, (s.perform e).1 = .refused err → (s.perform e).2 = s
  /-- An edit is refused if the store cannot make it. -/
  refused : ∀ e, ¬ e.Fits s → (s.perform e).1 = .refused e.reason
  /-- An edit that the store can make is made, and does under every name what it should. -/
  effect : ∀ e, e.Fits s → (∀ err, (s.perform e).1 ≠ .refused err) ∧
    ∀ name, (s.perform e).2.filed.get? name = e.entryAfter name (s.filed.get? name)
  /-- No edit touches a name it is not given. -/
  frame : ∀ e name, name ∉ e.names → (s.perform e).2.filed.get? name = s.filed.get? name
  /-- Policies that all have names are saved as if one after another. -/
  together : ∀ ps, (∀ p ∈ ps, p.IsNamed) →
    s.perform (.saveMany ps) = (.done, s.edited (ps.map .save))
  /-- Of policies one of which has no name, none is saved. -/
  allOrNothing : ∀ ps, (∃ p ∈ ps, ¬ p.IsNamed) → s.perform (.saveMany ps) =
    (.refused (.invalid "Policy name cannot be empty"), s)
  /-- What is deleted and restored is there again as it was. -/
  back : ∀ name, s.HoldsLive name →
    (s.perform (.delete name)).1 = .done ∧
      (s.perform (.delete name)).2.perform (.restore name) = (.done, s)
  /-- Of names that are deleted together those are counted that were live, each once. -/
  counted : ∀ names, (s.perform (.deleteMany names)).1 =
    .counted (names.filter fun name => (s.get? name).isSome).eraseDups.length
  /-- Just those go to the trash, to what is there already. -/
  discarded : ∀ names name, (s.perform (.deleteMany names)).2.HoldsTrashed name ↔
    s.HoldsTrashed name ∨ (name ∈ names ∧ s.HoldsLive name)

section Keyed

variable {s : PolicyStore} {e : Edit} {p : Policy} {name : String} {old : Option FiledPolicy}

/-- What a save files under a name is named for it. -/
theorem Edit.saved_isUnder (hp : p.IsNamed) (hold : ∀ f, old = some f → f.IsUnder name)
    (f : FiledPolicy) (h : Edit.saved name old p = some f) : f.IsUnder name := by
  unfold Edit.saved at h
  split at h
  next hname =>
    obtain ⟨own, hown, hne⟩ := hp
    obtain rfl : name = own := Option.some.inj (hname.symm.trans hown)
    obtain rfl := Option.some.inj h
    exact ⟨hne, hname⟩
  next => exact hold f h

/-- However many policies are saved, what is filed under a name is named for it. -/
theorem Edit.saves_isUnder {ps : List Policy} (hps : ∀ p ∈ ps, p.IsNamed)
    (hold : ∀ f, old = some f → f.IsUnder name) (f : FiledPolicy)
    (h : ps.foldl (saved name) old = some f) : f.IsUnder name := by
  induction ps generalizing old with
  | nil => exact hold f h
  | cons p ps ih =>
    obtain ⟨hp, hps⟩ := List.forall_mem_cons.1 hps
    exact ih hps (saved_isUnder hp hold) h

/-- Going to the trash and coming back leave the policy alone. -/
theorem Edit.moved_isUnder {g : FiledPolicy → FiledPolicy} (hg : ∀ f, (g f).policy = f.policy)
    (hold : ∀ f, old = some f → f.IsUnder name) (f : FiledPolicy) (h : old.map g = some f) :
    f.IsUnder name := by
  obtain ⟨f', hf', rfl⟩ := Option.map_eq_some_iff.1 h
  exact ⟨(hold f' hf').1, (congrArg Policy.name (hg f')).trans (hold f' hf').2⟩

/-- What an edit leaves under a name is filed as it should be, if what was there was. -/
theorem Edit.entryAfter_isUnder (hfits : e.Fits s) (hold : ∀ f, old = some f → f.IsUnder name)
    (f : FiledPolicy) (h : e.entryAfter name old = some f) : f.IsUnder name := by
  cases e with
  | save p => exact saved_isUnder hfits hold f h
  | saveMany ps => exact saves_isUnder hfits hold f h
  | delete gone => exact moved_isUnder (fun f => by split <;> rfl) hold f h
  | deleteMany names => exact moved_isUnder (fun f => by split <;> rfl) hold f h
  | restore back => exact moved_isUnder (fun f => by split <;> rfl) hold f h
  | forceDelete gone =>
    rw [entryAfter] at h
    split at h
    next => cases h
    next => exact hold f h

/-- No edit files a policy under a name that is not its own. -/
theorem Keyed.step (h : s.Keyed) (e : Edit) : (s.perform e).2.Keyed := by
  by_cases hfits : e.Fits s
  · intro name f hf
    rw [(perform_of_fits hfits).2] at hf
    exact Edit.entryAfter_isUnder hfits (h name) f hf
  · rw [perform_of_not_fits hfits]
    exact h

/-- No run of edits files a policy under a name that is not its own. -/
theorem Keyed.run (h : s.Keyed) (edits : List Edit) : (s.edited edits).Keyed := by
  induction edits generalizing s with
  | nil => exact h
  | cons e edits ih => exact ih (h.step e)

/-- Where policies are filed under their own names, a name is in the trash if its policy is. -/
theorem Keyed.holdsTrashed_iff (h : s.Keyed) :
    s.HoldsTrashed name ↔ ∃ p, s.filed.get? name = some ⟨p, true⟩ := by
  constructor
  · rintro ⟨p, hp, hname⟩
    obtain ⟨own, hfiled⟩ := mem_trashed.1 hp
    obtain rfl : own = name := Option.some.inj ((h own _ hfiled).2.symm.trans hname)
    exact ⟨p, hfiled⟩
  · rintro ⟨p, hfiled⟩
    exact ⟨p, mem_trashed.2 ⟨name, hfiled⟩, (h name _ hfiled).2⟩

/-- The trash is listed by name, each name once. -/
theorem Keyed.listed (h : s.Keyed) :
    s.trashed.Pairwise fun p q => ∃ n m, p.name = some n ∧ q.name = some m ∧ n < m := by
  have hname : ∀ e ∈ s.filed.entries, e.2.policy.name = some e.1 := fun e he =>
    (h e.1 e.2 ((Entries.get?_eq_some_iff s.filed.ordered).2 he)).2
  refine List.pairwise_map.2 (List.Pairwise.imp_of_mem ?_ (s.filed.ordered.filter _))
  intro a b ha hb hlt
  exact ⟨a.1, b.1, hname a (List.mem_filter.1 ha).1, hname b (List.mem_filter.1 hb).1, hlt⟩

theorem Keyed.orderly (h : s.Keyed) : s.Orderly where
  keyed := h
  stored := fun name => by
    rw [Register.mem_keys, Option.isSome_iff_exists, h.holdsTrashed_iff, HoldsLive]
    simp only [get?_eq_some_iff]
    constructor
    · rintro ⟨⟨p, trashed⟩, hf⟩
      cases trashed with
      | false => exact .inl ⟨p, hf⟩
      | true => exact .inr ⟨p, hf⟩
    · rintro (⟨p, hf⟩ | ⟨p, hf⟩) <;> exact ⟨_, hf⟩
  apart := fun name ⟨⟨p, hlive⟩, hgone⟩ => by
    obtain ⟨q, hq⟩ := h.holdsTrashed_iff.1 hgone
    cases (get?_eq_some_iff.1 hlive).symm.trans hq
  used := fun _ _ => mem_policiesFor
  listed := h.listed

/-- When names are deleted, the trash is what it was and those of them that were live. -/
theorem Keyed.holdsTrashed_deleteMany (h : s.Keyed) (names : List String) (name : String) :
    (s.perform (.deleteMany names)).2.HoldsTrashed name ↔
      s.HoldsTrashed name ∨ (name ∈ names ∧ s.HoldsLive name) := by
  rw [(h.step _).holdsTrashed_iff, h.holdsTrashed_iff, HoldsLive]
  simp only [get?_eq_some_iff, perform, get?_deleteMany, Edit.dropped]
  cases s.filed.get? name with
  | none => simp
  | some f =>
    obtain ⟨p, trashed⟩ := f
    by_cases hmem : name ∈ names <;> cases trashed <;> simp [hmem]

theorem Keyed.obeys (h : s.Keyed) : s.Obeys where
  unchanged := fun _ _ => perform_of_refused
  refused := fun e hfits => by rw [perform_of_not_fits hfits]
  effect := fun _ => perform_of_fits
  frame := fun _ _ => perform_frame
  together := fun ps hps => by
    rw [perform, s.saveMany_of_named hps]
    rfl
  allOrNothing := fun _ ⟨p, hp, hnot⟩ => perform_of_not_fits fun hfits => hnot (hfits p hp)
  back := fun name ⟨p, hp⟩ => by
    have hfiled := get?_eq_some_iff.1 hp
    have hgone : s.perform (.delete name) = (.done, s.put name p true) := by
      rw [perform, delete_of_live hfiled]
      rfl
    rw [hgone, perform, restore_put_trashed hfiled]
    exact ⟨rfl, rfl⟩
  counted := fun names => congrArg Answer.counted (s.deleteMany_count names)
  discarded := h.holdsTrashed_deleteMany

end Keyed

/-- **A policy store is one map with a trash.** Whatever is done to a store that began empty, it is in
order, and so is what comes of the next edit. -/
theorem map_with_trash (edits : List Edit) :
    (edited .empty edits).Orderly ∧ (edited .empty edits).Obeys := by
  have hempty : empty.Keyed := nofun
  exact ⟨(hempty.run edits).orderly, (hempty.run edits).obeys⟩

end PolicyStore

end Clearance
