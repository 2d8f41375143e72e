import Clearance.Matching

/-!
# What a condition sees of a request

Where conditions see attributes, the context that they are asked with is filed in layers, one over
another: the id of the subject and its attributes, then id, type and attributes of the resource, and on
top the caller's own context. Names of different layers can be equal. An attribute may be called `id`,
and a caller may say something under `subject.id`.

`Request.Exposes` says what is found without filing anything: the caller is asked first, then the
attributes, and the request itself only where both are silent. Nothing else is found
(`get?_attributeContext`).

A layer is a list of entries that all have the name of one owner in front. Under such a name it hides what
was filed before it, and it leaves every other name alone (`get?_insertAll_owned`,
`get?_insertAll_owned_of_ne`). Since no name has two owners, the layers can be read one at a time.
-/

namespace Clearance

namespace Entries

variable {α : Type}

/-- Nothing is found under a name that no entry has. -/
theorem get?_eq_none {l : List (String × α)} {k : String} (h : ∀ e ∈ l, k ≠ e.1) : get? l k = none := by
  cases hget : get? l k with
  | none => rfl
  | some v => exact absurd rfl (h (k, v) (mem_of_get? hget))

/-- Entries that get the same text in front of their names. -/
def prefixed (start : String) (l : List (String × α)) : List (String × α) :=
  l.map fun e => (start ++ e.1, e.2)

/-- Names that get the same text in front are told apart by what they were. -/
theorem get?_prefixed (start : String) (l : List (String × α)) (k : String) :
    get? (prefixed start l) (start ++ k) = get? l k := by
  induction l with
  | nil => rfl
  | cons e l ih =>
    show (if start ++ k = start ++ e.1 then _ else get? (prefixed start l) (start ++ k)) = _
    rw [ih, get?]
    simp only [String.append_right_inj]

/-- Whether no two entries have one name. -/
abbrev Distinct (l : List (String × α)) : Prop := l.Pairwise fun a b => a.1 ≠ b.1

/-- A prefix keeps distinct names distinct. -/
theorem Distinct.prefixed {l : List (String × α)} (h : Distinct l) (start : String) :
    Distinct (prefixed start l) :=
  List.pairwise_map.2 (h.imp fun hne heq => hne ((String.append_right_inj start).1 heq))

/-- What stands in name order has every name once. -/
theorem InNameOrder.distinct {l : List (String × α)} (h : InNameOrder l) : Distinct l := by
  refine List.Pairwise.imp (fun {a b} (hlt : a.1 < b.1) heq => ?_) h
  rw [heq] at hlt
  exact String.lt_irrefl b.1 hlt

end Entries

namespace Register

variable {α : Type}

theorem insertAll_append (r : Register α) (l l' : List (String × α)) :
    r.insertAll (l ++ l') = (r.insertAll l).insertAll l' :=
  List.foldl_append

/-- Filing leaves alone what has another name. -/
theorem get?_insertAll_of_ne (r : Register α) {l : List (String × α)} {k : String}
    (h : ∀ e ∈ l, k ≠ e.1) : (r.insertAll l).get? k = r.get? k := by
  induction l generalizing r with
  | nil => rfl
  | cons e l ih =>
    obtain ⟨he, hl⟩ := List.forall_mem_cons.1 h
    show ((r.insert e.1 e.2).insertAll l).get? k = _
    rw [ih _ hl, get?_insert, if_neg he]

/-- Entries of distinct names that are filed into a register hide what it had under those names. -/
theorem get?_insertAll (r : Register α) {l : List (String × α)} (h : Entries.Distinct l) (k : String) :
    (r.insertAll l).get? k = (Entries.get? l k).or (r.get? k) := by
  induction l generalizing r with
  | nil => rfl
  | cons e l ih =>
    obtain ⟨he, hl⟩ := List.pairwise_cons.1 h
    show ((r.insert e.1 e.2).insertAll l).get? k = _
    rw [ih _ hl, get?_insert, Entries.get?]
    split
    next hk =>
      -- no later entry has the name of this one
      rw [Entries.get?_eq_none fun x hx => hk ▸ he x hx]
      rfl
    next => rfl

end Register

/-- What a condition that sees attributes finds in a request, and under which names. -/
inductive Request.Exposes (q : Request) : String → Json → Prop where
  /-- What the caller says comes first. -/
  | said {k : String} {v : Json} (h : q.context.get? k = some v) : q.Exposes k v
  | subjectAttribute {n : String} {v : Json} (silent : q.context.get? ("subject." ++ n) = none)
      (h : q.subject.attributes.get? n = some v) : q.Exposes ("subject." ++ n) v
  | resourceAttribute {x : Resource} {n : String} {v : Json} (present : q.resource = some x)
      (silent : q.context.get? ("resource." ++ n) = none) (h : x.attributes.get? n = some v) :
      q.Exposes ("resource." ++ n) v
  /-- What is asked about comes last: where neither the caller nor an attribute says anything. -/
  | subjectId (silent : q.context.get? "subject.id" = none)
      (unset : q.subject.attributes.get? "id" = none) : q.Exposes "subject.id" (.str q.subject.id)
  | resourceId {x : Resource} (present : q.resource = some x)
      (silent : q.context.get? "resource.id" = none) (unset : x.attributes.get? "id" = none) :
      q.Exposes "resource.id" (.str x.id)
  | resourceType {x : Resource} (present : q.resource = some x)
      (silent : q.context.get? "resource.type" = none) (unset : x.attributes.get? "type" = none) :
      q.Exposes "resource.type" (.str x.type)

namespace Matching

/-- A layer of a context: a few things of an owner's own, and its attributes over them, all with the
same text in front. -/
def owned (start : String) (own : List (String × Json)) (attributes : Attributes) :
    List (String × Json) :=
  Entries.prefixed start own ++ Entries.prefixed start attributes.entries

variable {start k : String} {own : List (String × Json)}

/-- Under the names of an owner, its attributes hide what is its own, and both hide what was there
before. -/
theorem get?_insertAll_owned (r : Context) (hown : Entries.Distinct own) (attributes : Attributes)
    (n : String) :
    (r.insertAll (owned start own attributes)).get? (start ++ n) =
      (attributes.get? n).or ((Entries.get? own n).or (r.get? (start ++ n))) := by
  have hattributes : Entries.Distinct attributes.entries := attributes.ordered.distinct
  rw [owned, Register.insertAll_append, Register.get?_insertAll _ (hattributes.prefixed start),
    Register.get?_insertAll _ (hown.prefixed start), Entries.get?_prefixed, Entries.get?_prefixed]
  rfl

/-- A name of another kind is left alone. -/
theorem get?_insertAll_owned_of_ne (r : Context) (hk : ∀ n, k ≠ start ++ n) (attributes : Attributes) :
    (r.insertAll (owned start own attributes)).get? k = r.get? k := by
  refine Register.get?_insertAll_of_ne r fun e he => ?_
  rcases List.mem_append.1 he with he | he
  all_goals
    obtain ⟨x, -, rfl⟩ := List.mem_map.1 he
    exact hk x.1

/-- What is filed of a subject. -/
def subjectLayer (s : Subject) : List (String × Json) :=
  owned "subject." [("id", .str s.id)] s.attributes

/-- What is filed of a resource. -/
def resourceLayer (x : Resource) : List (String × Json) :=
  owned "resource." [("id", .str x.id), ("type", .str x.type)] x.attributes

/-- The context as it is filed, layer by layer. -/
theorem attributeContext_eq (q : Request) :
    attributeContext q =
      ((Register.empty.insertAll (subjectLayer q.subject)).insertAll
        (q.resource.elim [] resourceLayer)).insertAll q.context.entries := by
  rw [← Register.insertAll_append, ← Register.insertAll_append, ← List.append_assoc]
  obtain ⟨subject, resource, action, context⟩ := q
  cases resource <;> rfl

/-- Names that begin with different characters are different. -/
theorem subject_ne_resource (n n' : String) : "subject." ++ n ≠ "resource." ++ n' := by
  intro h
  have hchars := congrArg String.toList h
  simp at hchars

/-- What is found under the name of a subject: the caller's word, an attribute, or the id. -/
theorem get?_subject (q : Request) (n : String) :
    (attributeContext q).get? ("subject." ++ n) =
      (q.context.get? ("subject." ++ n)).or
        ((q.subject.attributes.get? n).or (Entries.get? [("id", .str q.subject.id)] n)) := by
  have hother : ∀ r : Context, (r.insertAll (q.resource.elim [] resourceLayer)).get? ("subject." ++ n) =
      r.get? ("subject." ++ n) := by
    intro r
    cases q.resource with
    | none => rfl
    | some x => exact get?_insertAll_owned_of_ne r (subject_ne_resource n) x.attributes
  rw [attributeContext_eq, Register.get?_insertAll _ q.context.ordered.distinct, hother, subjectLayer,
    get?_insertAll_owned _ (List.pairwise_singleton ..), Register.get?_empty, Option.or_none]
  rfl

/-- What is found under the name of a resource: the caller's word, and else an attribute, the id or the
type, if there is a resource. -/
theorem get?_resource (q : Request) (n : String) :
    (attributeContext q).get? ("resource." ++ n) =
      (q.context.get? ("resource." ++ n)).or
        (q.resource.bind fun x =>
          (x.attributes.get? n).or (Entries.get? [("id", .str x.id), ("type", .str x.type)] n)) := by
  have hother : (Register.empty.insertAll (subjectLayer q.subject)).get? ("resource." ++ n) = none :=
    get?_insertAll_owned_of_ne _ (fun n' h => subject_ne_resource n' n h.symm) q.subject.attributes
  rw [attributeContext_eq, Register.get?_insertAll _ q.context.ordered.distinct]
  cases q.resource with
  | none =>
    show (q.context.get? _).or ((Register.empty.insertAll (subjectLayer q.subject)).get? _) = _
    rw [hother]
    rfl
  | some x =>
    show (q.context.get? _).or ((Register.insertAll _ (resourceLayer x)).get? _) = _
    rw [resourceLayer, get?_insertAll_owned _ (by simp), hother, Option.or_none]
    rfl

/-- Under any other name there is only the caller's word. -/
theorem get?_other (q : Request) {k : String} (hsubject : ∀ n, k ≠ "subject." ++ n)
    (hresource : ∀ n, k ≠ "resource." ++ n) : (attributeContext q).get? k = q.context.get? k := by
  rw [attributeContext_eq, Register.get?_insertAll _ q.context.ordered.distinct]
  have hbelow : ((Register.empty.insertAll (subjectLayer q.subject)).insertAll
      (q.resource.elim [] resourceLayer)).get? k = none := by
    cases q.resource with
    | none => exact get?_insertAll_owned_of_ne _ hsubject q.subject.attributes
    | some x =>
      refine (get?_insertAll_owned_of_ne _ hresource x.attributes).trans ?_
      exact get?_insertAll_owned_of_ne _ hsubject q.subject.attributes
  rw [hbelow, Option.or_none]
  rfl

/-- **What a condition sees**: a name is looked up with the caller, then among the attributes of the
subject and of a resource that is there, then in what the request itself says of the two. Nothing else is
in the context. -/
theorem get?_attributeContext (q : Request) (k : String) (v : Json) :
    (attributeContext q).get? k = some v ↔ q.Exposes k v := by
  constructor
  · intro h
    by_cases hsubject : ∃ n, k = "subject." ++ n
    · obtain ⟨n, rfl⟩ := hsubject
      rw [get?_subject, Option.or_eq_some_iff, Option.or_eq_some_iff] at h
      obtain hsaid | ⟨hsilent, hattribute | ⟨hunset, hid⟩⟩ := h
      · exact .said hsaid
      · exact .subjectAttribute hsilent hattribute
      · simp only [Entries.get?, Option.ite_none_right_eq_some, Option.some.injEq] at hid
        obtain ⟨rfl, rfl⟩ := hid
        exact .subjectId hsilent hunset
    by_cases hresource : ∃ n, k = "resource." ++ n
    · obtain ⟨n, rfl⟩ := hresource
      rw [get?_resource, Option.or_eq_some_iff, Option.bind_eq_some_iff] at h
      obtain hsaid | ⟨hsilent, x, hpresent, hfound⟩ := h
      · exact .said hsaid
      obtain hattribute | ⟨hunset, hown⟩ := Option.or_eq_some_iff.1 hfound
      · exact .resourceAttribute hpresent hsilent hattribute
      · rcases Entries.mem_of_get? hown with _ | ⟨_, _ | ⟨_, hnone⟩⟩
        · exact .resourceId hpresent hsilent hunset
        · exact .resourceType hpresent hsilent hunset
        · cases hnone
    · rw [get?_other q (not_exists.1 hsubject) (not_exists.1 hresource)] at h
      exact .said h
  · intro h
    cases h with
    | said h =>
      rw [attributeContext_eq, Register.get?_insertAll _ q.context.ordered.distinct]
      exact Option.or_eq_some_iff.2 (.inl h)
    | subjectAttribute hsilent h => rw [get?_subject, hsilent, h]; rfl
    | resourceAttribute hpresent hsilent h => rw [get?_resource, hsilent, hpresent, Option.bind_some, h]; rfl
    | subjectId hsilent hunset =>
      refine (get?_subject q "id").trans ?_
      show (q.context.get? "subject.id").or _ = _
      rw [hsilent, hunset]
      rfl
    | resourceId hpresent hsilent hunset =>
      refine (get?_resource q "id").trans ?_
      show (q.context.get? "resource.id").or _ = _
      rw [hsilent, hpresent, Option.bind_some, hunset]
      rfl
    | resourceType hpresent hsilent hunset =>
      refine (get?_resource q "type").trans ?_
      show (q.context.get? "resource.type").or _ = _
      rw [hsilent, hpresent, Option.bind_some, hunset]
      rfl

/-- An attribute hides the id, and the caller an attribute. -/
example :
    (attributeContext
      { subject := ⟨"alice", .ofList [("id", .str "badge 7"), ("level", .str "high")]⟩
        resource := none
        action := ⟨"read"⟩
        context := .ofList [("subject.level", .str "low")] }).entries =
      [("subject.id", .str "badge 7"), ("subject.level", .str "low")] := rfl

end Matching

end Clearance
