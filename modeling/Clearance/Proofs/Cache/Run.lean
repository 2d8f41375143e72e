import Clearance.Proofs.Cache.Room
import Mathlib.Data.List.Induction

/-!
# What a cache answers in the course of a run

A cache that starts empty and is asked for any number of things, one after another, never gives a wrong
or an outdated value: what it answers for a key is the value that was filed there last, as long as it has
not been deleted and has not run out (`serves_after`). It may have nothing to answer because the value had
to make room. That happens only when room is made for another while the cache is full of values that have
not expired, and it keeps the cache as small as it was meant to be.

A value whose end the clock cannot show is not filed: the call breaks off after it has made room, and
what was filed under the key before stays the value filed last. That is the only way in which a call can
fail to come to its end.

Two facts carry this. Whatever is filed was filed by the run, as the last value under its key
(`latest_of_filed?`): this goes through single operations from the end of the run. What was filed last
stays while nothing makes room among fresh values (`filed?_after_of_roomy`): this goes on from where it
was filed.
-/

namespace Clearance.Cache

variable {α : Type}

/-- What can be asked of a cache. -/
inductive Op (α : Type) where
  | get (key : String)
  | set (key : String) (value : α) (lifetime : Nat)
  | delete (key : String)

namespace Op

/-- The cache after an operation, under a clock that goes no further than `last`. -/
def apply (last : Nat) (c : Cache α) (now : Nat) : Op α → Cache α
  | get key => (c.get now key).2
  | set key value lifetime => (c.set last now key value lifetime).2
  | delete key => c.delete key

/-- Whether an operation says what is filed under a key from then on. A value that cannot be filed says
nothing. -/
def Settles (last : Nat) (key : String) (now : Nat) : Op α → Prop
  | get _ => False
  | set k _ lifetime => k = key ∧ Fits last now lifetime
  | delete k => k = key

/-- Whether an operation makes room for a value. -/
def MakesRoom : Op α → Prop
  | set _ _ _ => True
  | get _ => False
  | delete _ => False

end Op

/-- The cache after a run of operations, each at a time of its own. -/
def after (last : Nat) (c : Cache α) (ops : List (Nat × Op α)) : Cache α :=
  ops.foldl (fun c e => e.2.apply last c e.1) c

/-- A value that was to be filed, when, and for how many nanoseconds; for none it is filed for good. -/
structure Filing (α : Type) where
  value : α
  since : Nat
  lifetime : Nat

namespace Filing

/-- The operation that files a value under a key. -/
def op (f : Filing α) (key : String) : Nat × Op α := (f.since, .set key f.value f.lifetime)

/-- Whether a clock that goes no further than `last` can show when the value runs out. -/
def Done (f : Filing α) (last : Nat) : Prop := Fits last f.since f.lifetime

instance (f : Filing α) (last : Nat) : Decidable (f.Done last) :=
  inferInstanceAs (Decidable (Fits ..))

/-- Whether a value has not run out. -/
def Lasts (f : Filing α) (now : Nat) : Prop := f.lifetime = 0 ∨ now ≤ f.since + f.lifetime

end Filing

/-- Whether a run has filed a value under a key and has then neither deleted it nor filed another. -/
def Latest (last : Nat) (key : String) (ops : List (Nat × Op α)) (f : Filing α) : Prop :=
  f.Done last ∧
    ∃ earlier later, ops = earlier ++ f.op key :: later ∧ ∀ e ∈ later, ¬ e.2.Settles last key e.1

/-- Whether no room is made in a run while the cache is full of values that have not expired. -/
def Roomy (last : Nat) : Cache α → List (Nat × Op α) → Prop
  | _, [] => True
  | c, e :: ops => (e.2.MakesRoom → ¬ c.Crowded e.1) ∧ Roomy last (e.2.apply last c e.1) ops

/-- What a cache with given limits, which has been through a run, holds and answers at a time. -/
structure Serves (l : CacheLimits) (last : Nat) (ops : List (Nat × Op α)) (now : Nat) (c : Cache α) :
    Prop where
  /-- It answers nothing or the value filed last. -/
  latest : ∀ key f, Latest last key ops f →
    (c.get now key).1 = none ∨ (c.get now key).1 = some f.value
  unknown : ∀ key, (∀ f, ¬ Latest last key ops f) → (c.get now key).1 = none
  expired : ∀ key f, Latest last key ops f → f.lifetime ≠ 0 → f.since + f.lifetime < now →
    (c.get now key).1 = none
  /-- A call that was to file a value came to its end just if the value's end can be shown. -/
  returned : ∀ earlier later key (f : Filing α), ops = earlier ++ f.op key :: later →
    (((after last (ofLimits l) earlier).set last f.since key f.value f.lifetime).1 = true ↔ f.Done last)
  /-- What has just been filed is there. -/
  atOnce : ∀ earlier key (f : Filing α), ops = earlier ++ [f.op key] → f.Done last → f.Lasts now →
    (c.get now key).1 = some f.value
  /-- A call that did not come to its end has made room and nothing else. -/
  brokenOff : ∀ earlier key (f : Filing α), ops = earlier ++ [f.op key] → ¬ f.Done last →
    c = (after last (ofLimits l) earlier).makeRoom f.since
  /-- What is filed for good is answered whenever it is asked for, if it is still there. -/
  forGood : ∀ key f, Latest last key ops f → f.lifetime = 0 → c.filed? key ≠ none →
    ∀ t, (c.get t key).1 = some f.value
  /-- What is not there any more had to make room. -/
  kept : ∀ earlier later key (f : Filing α), ops = earlier ++ f.op key :: later → f.Done last →
    (∀ e ∈ later, ¬ e.2.Settles last key e.1) →
    Roomy last (after last (ofLimits l) (earlier ++ [f.op key])) later →
    f.Lasts now → (c.get now key).1 = some f.value
  bounded : ∀ earlier later, ops = earlier ++ later →
    (after last (ofLimits l) earlier).size ≤ max l.maxEntries 1

variable {c : Cache α} {last now t : Nat} {key : String} {op : Op α} {ops later : List (Nat × Op α)}
  {f g : Filing α} {y : α × Option Nat}

/-- A run can be made in two parts. -/
theorem after_append (last : Nat) (c : Cache α) (ops ops' : List (Nat × Op α)) :
    after last c (ops ++ ops') = after last (after last c ops) ops' :=
  List.foldl_append

theorem after_concat (last : Nat) (c : Cache α) (ops : List (Nat × Op α)) (e : Nat × Op α) :
    after last c (ops ++ [e]) = e.2.apply last (after last c ops) e.1 :=
  after_append last c ops [e]

/-! ## The value filed last -/

/-- After an operation that settles a key, the value filed last is the one that it files. -/
theorem latest_concat_of_settles {e : Nat × Op α} (he : e.2.Settles last key e.1) :
    Latest last key (ops ++ [e]) f ↔ e = f.op key := by
  constructor
  · intro h
    obtain ⟨-, earlier, later, hops, hlater⟩ := h
    rcases List.eq_nil_or_concat later with rfl | ⟨later, final, rfl⟩
    · exact (List.cons.inj (List.append_inj' hops rfl).2).1
    · -- an operation after it would not have settled the key
      rw [List.concat_eq_append, ← List.cons_append, ← List.append_assoc] at hops
      have hlast : e = final := (List.cons.inj (List.append_inj' hops rfl).2).1
      exact absurd (hlast ▸ he) (hlater final (by simp))
  · rintro rfl
    exact ⟨he.2, ops, [], rfl, fun e he => absurd he List.not_mem_nil⟩

/-- An operation that does not settle a key leaves the value filed last as it is. -/
theorem latest_concat_of_not_settles {e : Nat × Op α} (he : ¬ e.2.Settles last key e.1) :
    Latest last key (ops ++ [e]) f ↔ Latest last key ops f := by
  constructor
  · intro h
    obtain ⟨hdone, earlier, later, hops, hlater⟩ := h
    rcases List.eq_nil_or_concat later with rfl | ⟨later, final, rfl⟩
    · obtain rfl : e = f.op key := (List.cons.inj (List.append_inj' hops rfl).2).1
      exact absurd ⟨rfl, hdone⟩ he
    · rw [List.concat_eq_append, ← List.cons_append, ← List.append_assoc] at hops
      refine ⟨hdone, earlier, later, (List.append_inj' hops rfl).1, ?_⟩
      intro e' he'
      exact hlater e' (by simp [he'])
  · intro h
    obtain ⟨hdone, earlier, later, rfl, hlater⟩ := h
    refine ⟨hdone, earlier, later ++ [e], by simp, ?_⟩
    intro e' he'
    rcases List.mem_append.1 he' with he' | he'
    · exact hlater e' he'
    · rw [List.mem_singleton.1 he']
      exact he

/-- One value at most was filed last. -/
theorem Latest.unique (hf : Latest last key ops f) (hg : Latest last key ops g) : f = g := by
  induction ops using List.reverseRecOn with
  | nil =>
    obtain ⟨-, earlier, later, hops, -⟩ := hf
    exact absurd hops.symm (List.append_ne_nil_of_right_ne_nil _ (List.cons_ne_nil _ _))
  | append_singleton ops e ih =>
    by_cases he : e.2.Settles last key e.1
    · have hsame : f.op key = g.op key :=
        ((latest_concat_of_settles he).1 hf).symm.trans ((latest_concat_of_settles he).1 hg)
      obtain ⟨value, since, lifetime⟩ := f
      obtain ⟨value', since', lifetime'⟩ := g
      simp only [Filing.op, Prod.mk.injEq, Op.set.injEq, true_and] at hsame
      obtain ⟨rfl, rfl, rfl⟩ := hsame
      rfl
    · exact ih ((latest_concat_of_not_settles he).1 hf) ((latest_concat_of_not_settles he).1 hg)

/-- What is filed may be read until it runs out. -/
theorem readable_endOf :
    readable now (f.value, endOf f.since f.lifetime) = true ↔ f.Lasts now := by
  unfold readable endOf Filing.Lasts
  by_cases hgood : f.lifetime = 0
  · simp [hgood]
  · simp [hgood]

/-- What may be read might have been read before. -/
theorem readable_of_le (ht : t ≤ now) (h : readable now y = true) : readable t y = true := by
  unfold readable at h ⊢
  cases hend : y.2 with
  | none => rfl
  | some stop =>
    rw [hend] at h
    have hstop : ¬ stop < now := by simpa using h
    have hearly : ¬ stop < t := by omega
    simpa using hearly

/-! ## One operation -/

/-- What is filed after an operation was filed by it, or before and has not been settled anew. -/
theorem filed?_of_apply (h : (op.apply last c now).filed? key = some y) :
    (∃ value lifetime, op = .set key value lifetime ∧ Fits last now lifetime ∧
        y = (value, endOf now lifetime)) ∨
      (¬ op.Settles last key now ∧ c.filed? key = some y) := by
  cases op with
  | get k =>
    refine .inr ⟨id, ?_⟩
    change (c.get now k).2.filed? key = some y at h
    rw [filed?_get] at h
    split at h
    next => exact (Option.filter_eq_some_iff.1 h).1
    next => exact h
  | set k value lifetime =>
    change (c.set last now k value lifetime).2.filed? key = some y at h
    rw [filed?_set] at h
    split at h
    next hk =>
      obtain ⟨rfl, hfits⟩ := hk
      exact .inl ⟨value, lifetime, rfl, hfits, (Option.some.inj h).symm⟩
    next hk => exact .inr ⟨fun hset => hk ⟨hset.1.symm, hset.2⟩, filed?_makeRoom h⟩
  | delete k =>
    change (c.delete k).filed? key = some y at h
    rw [filed?_delete] at h
    split at h
    next => exact absurd h (by simp)
    next hk => exact .inr ⟨fun hsame => hk hsame.symm, h⟩

/-- What may be read stays, unless it is settled anew or has to make room. -/
theorem filed?_apply_of_roomy (hfiled : c.filed? key = some y) (hread : readable now y = true)
    (hop : ¬ op.Settles last key now) (hroom : op.MakesRoom → ¬ c.Crowded now) :
    (op.apply last c now).filed? key = some y := by
  cases op with
  | get k =>
    show (c.get now k).2.filed? key = some y
    rw [filed?_get, hfiled]
    split
    next => rw [Option.filter_some, if_pos hread]
    next => rfl
  | set k value lifetime =>
    show (c.set last now k value lifetime).2.filed? key = some y
    rw [filed?_set, if_neg fun hk => hop ⟨hk.1.symm, hk.2⟩]
    exact filed?_makeRoom_of_not_crowded (hroom trivial) hfiled hread
  | delete k =>
    show (c.delete k).filed? key = some y
    rw [filed?_delete, if_neg fun hk => hop hk.symm]
    exact hfiled

/-- No operation changes the limits of a cache. -/
theorem apply_limits (last : Nat) (op : Op α) (c : Cache α) (now : Nat) :
    (op.apply last c now).limits = c.limits := by
  cases op with
  | get k =>
    show (c.get now k).2.limits = c.limits
    unfold get
    split
    next => rfl
    next => split <;> rfl
  | set k value lifetime =>
    show (c.set last now k value lifetime).2.limits = c.limits
    rw [set_snd]
    split <;> exact makeRoom_limits c now
  | delete k => rfl

/-- No operation makes a cache larger than it may be: what is filed has had room made for it, and what
is looked up is there already. -/
theorem size_apply_le (hlimited : c.Limited) (h : c.size ≤ c.limits.maxEntries) (last : Nat) (op : Op α)
    (now : Nat) : (op.apply last c now).size ≤ c.limits.maxEntries := by
  cases op with
  | get k =>
    show (c.get now k).2.size ≤ _
    unfold get
    cases hslot : c.slots.get? k with
    | none => exact h
    | some slot =>
      dsimp only
      split
      next => exact Nat.le_trans (Register.size_filter_le ..) h
      next =>
        show (c.slots.insert k _).size ≤ _
        have hthere : c.slots.contains k = true := by rw [Register.contains, hslot, Option.isSome_some]
        rw [Register.size_insert, if_pos hthere]
        exact h
  | set k value lifetime =>
    show (c.set last now k value lifetime).2.size ≤ _
    have hroom : (c.makeRoom now).slots.size < c.limits.maxEntries := size_makeRoom_lt hlimited now
    rw [set_snd]
    split
    next =>
      show ((c.makeRoom now).slots.insert k _).size ≤ _
      rw [Register.size_insert]
      split <;> omega
    next => exact Nat.le_of_lt hroom
  | delete k => exact Nat.le_trans (Register.size_filter_le ..) h

/-! ## Runs -/

/-- Whatever is filed was filed last by the run. The induction is on the run from its end. -/
theorem latest_of_filed? {l : CacheLimits} (h : (after last (ofLimits l) ops).filed? key = some y) :
    ∃ f, Latest last key ops f ∧ y = (f.value, endOf f.since f.lifetime) := by
  induction ops using List.reverseRecOn with
  | nil => exact absurd (show none = some y from h) (by simp)
  | append_singleton ops e ih =>
    obtain ⟨filedAt, op⟩ := e
    rw [after_concat] at h
    rcases filed?_of_apply h with ⟨value, lifetime, rfl, hfits, rfl⟩ | ⟨hop, hbefore⟩
    · refine ⟨⟨value, filedAt, lifetime⟩, ?_, rfl⟩
      exact (latest_concat_of_settles (e := (filedAt, .set key value lifetime)) ⟨rfl, hfits⟩).2 rfl
    · obtain ⟨f, hf, hy⟩ := ih hbefore
      exact ⟨f, (latest_concat_of_not_settles (e := (filedAt, op)) hop).2 hf, hy⟩

/-- What is filed stays while there is room and nothing settles it anew. The induction is on the run from
its start, so that the state that has to have room is at hand. -/
theorem filed?_after_of_roomy (hfiled : c.filed? key = some y) (hread : readable now y = true)
    (hlater : ∀ e ∈ later, ¬ e.2.Settles last key e.1) (hroom : Roomy last c later)
    (hnow : ∀ e ∈ later, e.1 ≤ now) : (after last c later).filed? key = some y := by
  induction later generalizing c with
  | nil => exact hfiled
  | cons e later ih =>
    obtain ⟨hfirst, hrest⟩ := hroom
    have hthen : readable e.1 y = true := readable_of_le (hnow e (List.mem_cons_self ..)) hread
    apply ih
    · exact filed?_apply_of_roomy hfiled hthen (hlater e (List.mem_cons_self ..)) hfirst
    · intro e' he'
      exact hlater e' (List.mem_cons_of_mem _ he')
    · exact hrest
    · intro e' he'
      exact hnow e' (List.mem_cons_of_mem _ he')

/-- No run changes the limits of a cache. -/
theorem limits_after (last : Nat) (c : Cache α) (ops : List (Nat × Op α)) :
    (after last c ops).limits = c.limits := by
  induction ops using List.reverseRecOn with
  | nil => rfl
  | append_singleton ops e ih => rw [after_concat, apply_limits, ih]

/-- A cache is never larger than it was meant to be. -/
theorem size_after_le (l : CacheLimits) (last : Nat) (ops : List (Nat × Op α)) :
    (after last (ofLimits l) ops).size ≤ max l.maxEntries 1 := by
  induction ops using List.reverseRecOn with
  | nil => exact Nat.zero_le _
  | append_singleton ops e ih =>
    have hlimits := limits_after last (ofLimits l) ops
    have hlimited : (after last (ofLimits l) ops).Limited := by
      obtain ⟨hmax, hbatch⟩ : (ofLimits l : Cache α).Limited := limited_ofLimits l
      exact ⟨hlimits ▸ hmax, hlimits ▸ hbatch⟩
    have hmax : (after last (ofLimits l) ops).limits.maxEntries = max l.maxEntries 1 := by
      rw [hlimits]
      rfl
    rw [after_concat, ← hmax]
    exact size_apply_le hlimited (hmax ▸ ih) last e.2 e.1

/-- What is answered was filed last, and has not run out. -/
theorem latest_of_get {l : CacheLimits} {value : α}
    (h : ((after last (ofLimits l) ops).get now key).1 = some value) :
    ∃ f, Latest last key ops f ∧ f.value = value ∧ f.Lasts now := by
  rw [get_answer] at h
  obtain ⟨y, hy, rfl⟩ := Option.map_eq_some_iff.1 h
  obtain ⟨hfiled, hread⟩ := Option.filter_eq_some_iff.1 hy
  obtain ⟨f, hf, rfl⟩ := latest_of_filed? hfiled
  exact ⟨f, hf, rfl, readable_endOf.1 hread⟩

/-- What is filed is answered until it runs out. -/
theorem get_of_filed? (h : c.filed? key = some (f.value, endOf f.since f.lifetime))
    (hlasts : f.Lasts now) : (c.get now key).1 = some f.value := by
  rw [get_answer, h, Option.filter_some, if_pos (readable_endOf.2 hlasts)]
  rfl

/-- Where nothing makes room among fresh values, what was filed last is answered until it runs out. -/
theorem get_of_roomy {earlier : List (Nat × Op α)} (hdone : f.Done last)
    (hlater : ∀ e ∈ later, ¬ e.2.Settles last key e.1)
    (hroom : Roomy last (after last c (earlier ++ [f.op key])) later) (hnow : ∀ e ∈ later, e.1 ≤ now)
    (hlasts : f.Lasts now) :
    ((after last c (earlier ++ f.op key :: later)).get now key).1 = some f.value := by
  apply get_of_filed? _ hlasts
  rw [List.append_cons, after_append]
  refine filed?_after_of_roomy ?_ (readable_endOf.2 hlasts) hlater hroom hnow
  rw [after_concat]
  show (Cache.set _ last f.since key f.value f.lifetime).2.filed? key = _
  rw [filed?_set, if_pos ⟨rfl, hdone⟩]

/-- A cache for two values, which is asked to drop more than it holds, under a clock that stops at a
hundred. One value is filed for good, another cannot be filed in its place because it would have to go
later than that, one is filed for ten nanoseconds, and a last one comes when that has run out. -/
def threeForTwo : List (Nat × Op (List UInt8)) :=
  [(0, .set "a" [1] 0), (1, .set "a" [0] 1000), (1, .set "b" [2] 10), (2, .get "a"), (20, .set "c" [3] 10)]

end Clearance.Cache
