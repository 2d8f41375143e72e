import Clearance.Delegation.Chain
import Clearance.Proofs.Delegation.Attempt

/-!
# What the walk back finds

Behind a delegator stand those who delegated to them, behind those again others. `Behind up start k
x` says that `x` can be reached in `k` steps back, where `up` gives the delegations that a party
holds. A party may stand behind the delegator in several ways; what counts is the shortest
(`Nearest`).

The walk takes one generation after another. What carries it is `Walked`: before the step from `k`
to `k + 1`, the parties met are those within `k` steps, and the next generation are those for whom
`k` steps is the shortest way. From that, `walkBack_on` says which of three answers the walk comes
to, and that it leaves the memory alone.
-/

namespace Clearance.Delegation

section Distance

variable (up : String → List Delegation) (start : String)

/-- Whether some delegation that a party holds comes from another. -/
def DelegatedTo (x y : String) : Prop := ∃ d ∈ up y, d.delegator = x

/-- Whether a party stands some number of steps behind another, in some way. -/
def Behind : Nat → String → Prop
  | 0, x => x = start
  | k + 1, x => ∃ y, Behind k y ∧ DelegatedTo up x y

/-- Whether a party stands at most some number of steps behind another. -/
def Within (k : Nat) (x : String) : Prop := ∃ j ≤ k, Behind up start j x

/-- Whether a number of steps is the shortest way back to a party. -/
def Nearest (k : Nat) (x : String) : Prop := Behind up start k x ∧ ∀ j < k, ¬ Behind up start j x

variable {up start} {k : Nat} {x : String}

/-- Within no steps there is the start alone. -/
theorem within_zero : Within up start 0 x ↔ x = start := by
  constructor
  · intro h
    obtain ⟨j, hj, hx⟩ := h
    obtain rfl : j = 0 := by omega
    exact hx
  · intro hx
    exact ⟨0, Nat.le_refl 0, hx⟩

/-- Nobody but the start is nearest at no steps. -/
theorem nearest_zero : Nearest up start 0 x ↔ x = start := by
  constructor
  · intro h
    exact h.1
  · intro hx
    exact ⟨hx, fun j hj => absurd hj (Nat.not_lt_zero j)⟩

/-- What is one step behind a party that is nearer than `k` is within `k`. -/
theorem Within.of_delegatedTo {y : String} {j : Nat} (hj : j < k) (hy : Behind up start j y)
    (hx : DelegatedTo up x y) : Within up start k x :=
  ⟨j + 1, hj, y, hy, hx⟩

/-- One step further back stands what is behind those for whom `k` steps is the shortest way. -/
theorem within_succ :
    Within up start (k + 1) x ↔
      Within up start k x ∨ ∃ y, Nearest up start k y ∧ DelegatedTo up x y := by
  constructor
  · intro h
    obtain ⟨j, hj, hx⟩ := h
    by_cases hle : j ≤ k
    · exact .inl ⟨j, hle, hx⟩
    · obtain rfl : j = k + 1 := by omega
      obtain ⟨y, hy, hxy⟩ := hx
      -- the way through `y` is `k + 1` long, but there may be a shorter one to `y`
      by_cases hnear : ∃ i < k, Behind up start i y
      · obtain ⟨i, hi, hyi⟩ := hnear
        exact .inl (Within.of_delegatedTo hi hyi hxy)
      · exact .inr ⟨y, ⟨hy, fun i hi hyi => hnear ⟨i, hi, hyi⟩⟩, hxy⟩
  · intro h
    rcases h with ⟨j, hj, hx⟩ | ⟨y, hy, hxy⟩
    · exact ⟨j, by omega, hx⟩
    · exact Within.of_delegatedTo (Nat.lt_succ_self k) hy.1 hxy

/-- The next generation are those behind the last one who have not stood nearer. -/
theorem nearest_succ :
    Nearest up start (k + 1) x ↔
      ¬ Within up start k x ∧ ∃ y, Nearest up start k y ∧ DelegatedTo up x y := by
  have hnot : (∀ j < k + 1, ¬ Behind up start j x) ↔ ¬ Within up start k x :=
    ⟨fun h ⟨j, hj, hx⟩ => h j (by omega) hx, fun h j hj hx => h ⟨j, by omega, hx⟩⟩
  unfold Nearest
  rw [hnot]
  constructor
  · intro hboth
    obtain ⟨hx, hfar⟩ := hboth
    exact ⟨hfar, (within_succ.1 ⟨k + 1, Nat.le_refl _, hx⟩).resolve_left hfar⟩
  · intro hboth
    obtain ⟨hfar, y, hy, hxy⟩ := hboth
    exact ⟨⟨y, hy.1, hxy⟩, hfar⟩

/-- Where a generation is missing, everyone stands nearer. -/
theorem within_of_none_nearest (hnone : ∀ x, ¬ Nearest up start (k + 1) x) {j : Nat}
    (hx : Behind up start j x) : Within up start k x := by
  induction j generalizing x with
  | zero => exact ⟨0, Nat.zero_le k, hx⟩
  | succ j ih =>
    obtain ⟨y, hy, hxy⟩ := hx
    obtain ⟨i, hi, hyi⟩ := ih hy
    -- one step past somebody within `k` would belong to the missing generation
    have hnext : Within up start (k + 1) x := Within.of_delegatedTo (by omega) hyi hxy
    rcases within_succ.1 hnext with h | h
    · exact h
    · exact Classical.byContradiction fun hfar => hnone _ (nearest_succ.2 ⟨hfar, h⟩)

end Distance

namespace Walk

/-- Walk through the delegations that a whole generation holds. -/
def meetAll (up : String → List Delegation) (wanted : String) (w : Walk) : List String → Option Walk
  | [] => some w
  | party :: rest => (w.meet wanted (up party)).bind fun w => w.meetAll up wanted rest

variable {up : String → List Delegation} {wanted : String} {w w' : Walk} {x : String}

/-- The wanted one turns up if some delegation comes from them. -/
theorem meet_eq_none {ds : List Delegation} :
    w.meet wanted ds = none ↔ ∃ d ∈ ds, d.delegator = wanted := by
  induction ds generalizing w with
  | nil => simp [meet]
  | cons d ds ih =>
    unfold meet
    split
    next h => simp [h]
    next h =>
      split
      next => simp [ih, h]
      next => simp [ih, h]

/-- Those met are the delegators, and of them the new ones come next. -/
theorem meet_eq_some {ds : List Delegation} (h : w.meet wanted ds = some w') :
    (x ∈ w'.met ↔ x ∈ w.met ∨ ∃ d ∈ ds, d.delegator = x) ∧
      (x ∈ w'.next ↔ x ∈ w.next ∨ (x ∉ w.met ∧ ∃ d ∈ ds, d.delegator = x)) := by
  induction ds generalizing w with
  | nil =>
    obtain rfl := Option.some.inj h
    simp
  | cons d ds ih =>
    unfold meet at h
    split at h
    next => exact absurd h (by simp)
    next =>
      split at h
      next hmet =>
        have hmem : d.delegator ∈ w.met := by simpa using hmet
        obtain ⟨hm, hn⟩ := ih h
        rw [hm, hn]
        by_cases hx : d.delegator = x
        · subst hx
          simp [hmem]
        · simp [hx]
      next hmet =>
        have hnot : d.delegator ∉ w.met := by simpa using hmet
        obtain ⟨hm, hn⟩ := ih h
        rw [hm, hn]
        by_cases hx : d.delegator = x
        · subst hx
          simp [hnot]
        · simp [hx, Ne.symm hx]

/-- The wanted one turns up in a generation if they delegated to someone of it. -/
theorem meetAll_eq_none {frontier : List String} :
    w.meetAll up wanted frontier = none ↔ ∃ y ∈ frontier, DelegatedTo up wanted y := by
  induction frontier generalizing w with
  | nil => simp [meetAll]
  | cons party rest ih =>
    unfold meetAll
    cases h : w.meet wanted (up party) with
    | none => exact iff_of_true rfl ⟨party, List.mem_cons_self .., meet_eq_none.1 h⟩
    | some w₁ =>
      have hnot : ¬ DelegatedTo up wanted party := fun hd => by
        rw [meet_eq_none.2 hd] at h
        exact absurd h (by simp)
      simp only [Option.bind_some, ih, List.mem_cons, exists_eq_or_imp, hnot, false_or]

/-- Those met in a generation are the delegators of it, and of them the new ones come next. -/
theorem meetAll_eq_some {frontier : List String} (h : w.meetAll up wanted frontier = some w') :
    (x ∈ w'.met ↔ x ∈ w.met ∨ ∃ y ∈ frontier, DelegatedTo up x y) ∧
      (x ∈ w'.next ↔ x ∈ w.next ∨ (x ∉ w.met ∧ ∃ y ∈ frontier, DelegatedTo up x y)) := by
  induction frontier generalizing w with
  | nil =>
    obtain rfl := Option.some.inj h
    simp
  | cons party rest ih =>
    obtain ⟨w₁, h₁, h₂⟩ := Option.bind_eq_some_iff.1 h
    obtain ⟨hm₁, hn₁⟩ := meet_eq_some (x := x) h₁
    obtain ⟨hm₂, hn₂⟩ := ih h₂
    change _ ↔ _ ∨ DelegatedTo up x party at hm₁
    change _ ↔ _ ∨ (_ ∧ DelegatedTo up x party) at hn₁
    simp only [hm₂, hn₂, hm₁, hn₁, List.mem_cons, exists_eq_or_imp, not_or]
    refine ⟨or_assoc, ?_⟩
    by_cases hparty : DelegatedTo up x party
    · simp only [hparty, not_true_eq_false, and_false, false_and, or_false, true_or]
    · simp only [hparty, not_false_eq_true, and_true, and_false, false_or, or_false]

end Walk

variable {up : String → List Delegation} {delegator delegate : String} {k : Nat}
  {met frontier : List String}

/-- How far a walk has come: who has been met, and who was met last. -/
structure Walked (up : String → List Delegation) (start : String) (k : Nat)
    (met frontier : List String) : Prop where
  met_iff : ∀ x, x ∈ met ↔ Within up start k x
  frontier_iff : ∀ x, x ∈ frontier ↔ Nearest up start k x

/-- Before the first step only the delegator has been met. -/
theorem walked_start : Walked up delegator 0 [delegator] [delegator] :=
  ⟨fun x => by rw [List.mem_singleton, within_zero],
    fun x => by rw [List.mem_singleton, nearest_zero]⟩

/-- Whether the delegate turns up one step behind the last generation. -/
theorem Walked.meetAll_eq_none (h : Walked up delegator k met frontier)
    (hfar : ¬ Within up delegator k delegate) :
    Walk.meetAll up delegate ⟨met, []⟩ frontier = none ↔ Nearest up delegator (k + 1) delegate := by
  rw [Walk.meetAll_eq_none, nearest_succ]
  simp only [h.frontier_iff]
  exact (and_iff_right hfar).symm

/-- If a generation does not bring up the delegate, they do not stand within one more step. -/
theorem Walked.not_within_succ (h : Walked up delegator k met frontier)
    (hfar : ¬ Within up delegator k delegate) {w : Walk}
    (hw : Walk.meetAll up delegate ⟨met, []⟩ frontier = some w) :
    ¬ Within up delegator (k + 1) delegate := by
  intro hd
  have hnearest := nearest_succ.2 ⟨hfar, (within_succ.1 hd).resolve_left hfar⟩
  rw [(h.meetAll_eq_none hfar).2 hnearest] at hw
  exact absurd hw (by simp)

/-- One generation takes the walk one step further. -/
theorem Walked.next (h : Walked up delegator k met frontier) {w : Walk}
    (hw : Walk.meetAll up delegate ⟨met, []⟩ frontier = some w) :
    Walked up delegator (k + 1) w.met w.next := by
  refine ⟨fun x => ?_, fun x => ?_⟩
  · rw [(Walk.meetAll_eq_some hw).1, within_succ, h.met_iff]
    simp only [h.frontier_iff]
  · rw [(Walk.meetAll_eq_some hw).2, nearest_succ, h.met_iff]
    simp only [h.frontier_iff, List.not_mem_nil, false_or]

variable {w : Memory} {now : Moment}

/-- To meet a generation comes to a cycle if the delegate turns up, and to the parties met if not. -/
theorem generation_on (walk : Walk) (frontier : List String) :
    Attempt.on (generation Memory.backend now delegator delegate walk frontier) w =
      (match walk.meetAll (w.delegations.activeFor now.time) delegate frontier with
        | none => .error (.cycle delegator delegate)
        | some walk => .ok walk, w) := by
  induction frontier generalizing walk with
  | nil => rfl
  | cons party rest ih =>
    unfold generation Walk.meetAll
    rw [Attempt.on_bind_of_ok (Attempt.on_activeFor ..)]
    cases walk.meet delegate (w.delegations.activeFor now.time party) with
    | none => rfl
    | some walk => exact ih walk

/-- Only what parties hold decides what the walk comes to. -/
theorem walkBack_congr {w' : Memory}
    (h : w.delegations.activeFor now.time = w'.delegations.activeFor now.time) (limit : Nat) :
    ∀ (left : Nat) (met frontier : List String),
      (Attempt.on (walkBack Memory.backend now delegator delegate limit left met frontier) w).1 =
        (Attempt.on (walkBack Memory.backend now delegator delegate limit left met frontier) w').1 := by
  intro left
  induction left with
  | zero =>
    intro met frontier
    rw [walkBack.eq_def, Attempt.on_bind, generation_on, Attempt.on_bind, generation_on, h]
    cases Walk.meetAll (w'.delegations.activeFor now.time) delegate ⟨met, []⟩ frontier with
    | none => rfl
    | some walk =>
      dsimp only
      split <;> rfl
  | succ left ih =>
    intro met frontier
    rw [walkBack.eq_def, Attempt.on_bind, generation_on, Attempt.on_bind, generation_on, h]
    cases Walk.meetAll (w'.delegations.activeFor now.time) delegate ⟨met, []⟩ frontier with
    | none => rfl
    | some walk =>
      dsimp only
      split
      next => rfl
      next => exact ih walk.met walk.next

/-- Only what parties hold decides what checking a chain comes to. -/
theorem checkChain_congr {w' : Memory}
    (h : w.delegations.activeFor now.time = w'.delegations.activeFor now.time) (limit : Nat) :
    (Attempt.on (checkChain Memory.backend now limit delegator delegate) w).1 =
      (Attempt.on (checkChain Memory.backend now limit delegator delegate) w').1 :=
  walkBack_congr h limit limit [delegator] [delegator]

/-- The three answers of a walk that has come `k` steps and may go `left` steps further. -/
inductive Answers (up : String → List Delegation) (delegator delegate : String) (limit k : Nat) :
    Nat → Except Refusal Unit → Prop
  | cycle {left j : Nat} (hj : j ≤ left) (hd : Nearest up delegator (k + j + 1) delegate) :
      Answers up delegator delegate limit k left (.error (.cycle delegator delegate))
  | tooDeep {left : Nat} (hd : ¬ Within up delegator (k + left + 1) delegate) {x : String}
      (hx : Nearest up delegator (k + left + 1) x) :
      Answers up delegator delegate limit k left (.error (.chainTooDeep limit))
  | ok {left j : Nat} (hj : j ≤ left) (hd : ¬ Within up delegator (k + j) delegate)
      (hend : ∀ x, ¬ Nearest up delegator (k + j + 1) x) :
      Answers up delegator delegate limit k left (.ok ())

/-- What is answered one step further on is the answer one step before, with one more step to go. -/
theorem Answers.succ {limit left : Nat} {r : Except Refusal Unit}
    (h : Answers up delegator delegate limit (k + 1) left r) :
    Answers up delegator delegate limit k (left + 1) r := by
  have hsum : ∀ j, k + 1 + j = k + (j + 1) := fun j => by omega
  cases h with
  | cycle hj hd => exact .cycle (Nat.succ_le_succ hj) (hsum _ ▸ hd)
  | tooDeep hd hx => exact .tooDeep (hsum _ ▸ hd) (hsum _ ▸ hx)
  | ok hj hd hend => exact .ok (Nat.succ_le_succ hj) (hsum _ ▸ hd) (hsum _ ▸ hend)

/-- One round of the walk: the delegate turns up, or nobody is left to ask, or the walk has come one
step further and goes on if it may. -/
theorem walkBack_round {limit left : Nat}
    (h : Walked (w.delegations.activeFor now.time) delegator k met frontier)
    (hfar : ¬ Within (w.delegations.activeFor now.time) delegator k delegate) :
    (Nearest (w.delegations.activeFor now.time) delegator (k + 1) delegate ∧
        Attempt.on (walkBack Memory.backend now delegator delegate limit left met frontier) w =
          (.error (.cycle delegator delegate), w)) ∨
      ((∀ x, ¬ Nearest (w.delegations.activeFor now.time) delegator (k + 1) x) ∧
        Attempt.on (walkBack Memory.backend now delegator delegate limit left met frontier) w =
          (.ok (), w)) ∨
      ∃ walk : Walk,
        Walked (w.delegations.activeFor now.time) delegator (k + 1) walk.met walk.next ∧
        ¬ Within (w.delegations.activeFor now.time) delegator (k + 1) delegate ∧
        walk.next ≠ [] ∧
        Attempt.on (walkBack Memory.backend now delegator delegate limit left met frontier) w =
          match left with
          | 0 => (.error (.chainTooDeep limit), w)
          | left + 1 =>
            Attempt.on
              (walkBack Memory.backend now delegator delegate limit left walk.met walk.next) w := by
  rw [walkBack.eq_def Memory.backend now delegator delegate limit left met frontier,
    Attempt.on_bind, generation_on]
  cases hw : Walk.meetAll (w.delegations.activeFor now.time) delegate ⟨met, []⟩ frontier with
  | none => exact .inl ⟨(h.meetAll_eq_none hfar).1 hw, rfl⟩
  | some walk =>
    have hnext := h.next hw
    dsimp only
    split
    next hend =>
      refine .inr (.inl ⟨fun x hx => ?_, rfl⟩)
      rw [← hnext.frontier_iff, List.isEmpty_iff.1 hend] at hx
      exact absurd hx List.not_mem_nil
    next hmore =>
      refine .inr (.inr ⟨walk, hnext, h.not_within_succ hfar hw, mt List.isEmpty_iff.2 hmore, ?_⟩)
      cases left <;> rfl

/-- **What the walk comes to**: from `k` steps back, with `left` to go, it finds the delegate, runs
out of steps or comes to an end, and nothing changes. -/
theorem walkBack_on {limit left : Nat}
    (h : Walked (w.delegations.activeFor now.time) delegator k met frontier)
    (hfar : ¬ Within (w.delegations.activeFor now.time) delegator k delegate) :
    ∃ r, Attempt.on (walkBack Memory.backend now delegator delegate limit left met frontier) w =
        (r, w) ∧
      Answers (w.delegations.activeFor now.time) delegator delegate limit k left r := by
  induction left generalizing k met frontier with
  | zero =>
    rcases walkBack_round h hfar with ⟨hd, hr⟩ | ⟨hend, hr⟩ | ⟨walk, hnext, hfar', hmore, hr⟩
    · exact ⟨_, hr, .cycle (Nat.le_refl 0) hd⟩
    · exact ⟨_, hr, .ok (Nat.le_refl 0) hfar hend⟩
    · obtain ⟨x, hx⟩ := List.exists_mem_of_ne_nil _ hmore
      exact ⟨_, hr, .tooDeep hfar' ((hnext.frontier_iff x).1 hx)⟩
  | succ left ih =>
    rcases walkBack_round h hfar with ⟨hd, hr⟩ | ⟨hend, hr⟩ | ⟨walk, hnext, hfar', -, hr⟩
    · exact ⟨_, hr, .cycle (Nat.zero_le _) hd⟩
    · exact ⟨_, hr, .ok (Nat.zero_le _) hfar hend⟩
    · obtain ⟨r, hr', hanswer⟩ := ih hnext hfar'
      exact ⟨r, hr.trans hr', hanswer.succ⟩

/-- Checking a chain is a walk from the delegator with the whole limit to go. -/
theorem checkChain_on (w : Memory) (now : Moment) (limit : Nat) {delegator delegate : String}
    (hne : delegator ≠ delegate) :
    ∃ r, Attempt.on (checkChain Memory.backend now limit delegator delegate) w = (r, w) ∧
      Answers (w.delegations.activeFor now.time) delegator delegate limit 0 limit r :=
  walkBack_on walked_start fun h => hne (within_zero.1 h).symm

/-- Where a chain passes, the delegate stands nowhere behind the delegator. -/
theorem Answers.not_behind {limit left : Nat}
    (h : Answers up delegator delegate limit k left (.ok ())) (j : Nat) :
    ¬ Behind up delegator j delegate := by
  cases h with
  | ok hj hd hend => exact fun h => hd (within_of_none_nearest hend h)

end Clearance.Delegation
