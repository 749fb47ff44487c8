import FraiseQL.Error
import FraiseQL.SetMap
import FraiseQL.Worklist

/-! The cascade invalidator (`cache/cascade_invalidator.rs`): a dependency graph between views kept in a
forward and a reverse map, four traversals over it, and the invariant of every run. `average_affected`, a
quotient of the two counters kept for display, is left out. The sets are hash sets, whose iteration order
no result depends on: every traversal below is characterised by membership. -/

namespace FraiseQL.CacheCascade

open Relation Worklist

abbrev View := String

structure InvalidationStats where
  totalCascades : Nat := 0
  totalInvalidated : Nat := 0
  maxAffected : Nat := 0

/-- `CascadeInvalidator`. `viewDependencies` maps a view to the views it depends on, `dependents` a view
to the views that depend on it. -/
structure CascadeInvalidator where
  viewDependencies : SetMap View View
  dependents : SetMap View View
  stats : InvalidationStats

def new : CascadeInvalidator := ⟨∅, ∅, {}⟩

/-- The rounds a traversal of this map can take: one per edge and one for the first view. -/
def fuelFor (m : SetMap View View) : Nat := weight m.members m.keys [] + 2

namespace CascadeInvalidator

def clear (_ : CascadeInvalidator) : CascadeInvalidator := new

variable (c : CascadeInvalidator)

/-- `can_reach`, over the forward map. -/
def canReach (source target : View) : Bool :=
  (search c.viewDependencies.members target (fuelFor c.viewDependencies) [] [source]).getD false

/-- `add_dependency`. The state is returned with the result, as `&mut self` leaves it. -/
def addDependency (dependentView dependencyView : View) :
    Except FraiseQLError Unit × CascadeInvalidator :=
  if dependentView = dependencyView then
    (.error (.validation "View cannot depend on itself" (some "cascade_invalidator::add_dependency")), c)
  else if c.canReach dependencyView dependentView then
    (.error (.validation
      ("Adding dependency '" ++ dependentView ++ "' → '" ++ dependencyView ++ "' would create a cycle")
      (some "cascade_invalidator::add_dependency")), c)
  else
    (.ok (), { c with
      viewDependencies := c.viewDependencies.add dependentView dependencyView
      dependents := c.dependents.add dependencyView dependentView })

/-- The loop shared by `cascade_invalidate` and `get_transitive_dependents`, over the reverse map. -/
def collectDependents (view : View) : List View :=
  (closure c.dependents.members (fuelFor c.dependents) [view] [view]).getD []

def cascadeInvalidate (view : View) : List View × CascadeInvalidator :=
  let invalidated := c.collectDependents view
  (invalidated, { c with stats := {
    totalCascades := c.stats.totalCascades + 1
    totalInvalidated := c.stats.totalInvalidated + invalidated.length
    maxAffected := max c.stats.maxAffected invalidated.length } })

def getTransitiveDependents (view : View) : List View := c.collectDependents view

/-- `has_dependency_path`, over the forward map. -/
def hasDependencyPath (dependent dependency : View) : Bool :=
  (searchEdge c.viewDependencies.members dependency (fuelFor c.viewDependencies) [] [dependent]).getD
    false

/-- `a` depends directly on `b`. -/
def DependsOn (a b : View) : Prop := b ∈ c.viewDependencies.members a

/-! ### The traversals -/

theorem members_of_notMem_keys (m : SetMap View View) : ∀ a, a ∉ m.keys → m.members a = [] :=
  fun _ h => SetMap.members_eq_nil_of_notMem_keys h

theorem canReach_iff (source target : View) :
    c.canReach source target = true ↔ ReflTransGen c.DependsOn source target := by
  have hiff := search_iff (members_of_notMem_keys c.viewDependencies) (fuelFor c.viewDependencies)
    source target (by simp [fuelFor])
  rw [canReach, Option.getD_eq_iff, Bool.false_eq_true, and_false, or_false]
  exact hiff

theorem hasDependencyPath_iff (dependent dependency : View) :
    c.hasDependencyPath dependent dependency = true ↔ TransGen c.DependsOn dependent dependency := by
  have hiff := searchEdge_iff (members_of_notMem_keys c.viewDependencies) (fuelFor c.viewDependencies)
    dependent dependency (by simp [fuelFor])
  rw [hasDependencyPath, Option.getD_eq_iff, Bool.false_eq_true, and_false, or_false]
  exact hiff

theorem mem_collectDependents_iff (view w : View) :
    w ∈ c.collectDependents view ↔ ReflTransGen (Edge c.dependents.members) view w := by
  obtain ⟨out, hout, _, hmem⟩ := closure_spec (members_of_notMem_keys c.dependents) view
    (fuelFor c.dependents) [] [view] [view] (Progress.init _ view) (by simp [fuelFor])
  rw [collectDependents, hout]
  exact hmem w

/-! ### The invariant -/

/-- No view depends on itself through a nonempty chain, and the two maps mirror each other. -/
structure Inv : Prop where
  acyclic : ∀ v, ¬TransGen c.DependsOn v v
  mirror : ∀ a b, b ∈ c.viewDependencies.members a ↔ a ∈ c.dependents.members b

theorem inv_new : Inv new where
  acyclic := by
    intro v hcycle
    obtain ⟨w, _, hstep⟩ := (TransGen.tail'_iff).mp hcycle
    simp [DependsOn, new] at hstep
  mirror := by simp [new]

/-- What an accepted dependency adds to the relation. -/
theorem dependsOn_add {c : CascadeInvalidator} (a b x y : View) :
    DependsOn { c with
      viewDependencies := c.viewDependencies.add a b
      dependents := c.dependents.add b a } x y ↔ c.DependsOn x y ∨ (x = a ∧ y = b) := by
  simp only [DependsOn, SetMap.mem_members_add]
  tauto

theorem addDependency_cases (a b : View) :
    (∃ e, c.addDependency a b = (.error e, c) ∧ ReflTransGen c.DependsOn b a) ∨
      (¬ReflTransGen c.DependsOn b a ∧ c.addDependency a b = (.ok (), { c with
        viewDependencies := c.viewDependencies.add a b
        dependents := c.dependents.add b a })) := by
  unfold addDependency
  split_ifs with hself hreach
  · exact .inl ⟨_, rfl, hself ▸ ReflTransGen.refl⟩
  · exact .inl ⟨_, rfl, (c.canReach_iff b a).mp hreach⟩
  · exact .inr ⟨fun h => hreach ((c.canReach_iff b a).mpr h), rfl⟩

variable {c}

theorem Inv.addDependency (hinv : Inv c) (a b : View) : Inv (c.addDependency a b).2 := by
  obtain ⟨e, heq, _⟩ | ⟨hreach, heq⟩ := c.addDependency_cases a b
  · rw [heq]
    exact hinv
  · rw [heq]
    constructor
    · intro v hcycle
      refine hreach ((cycle_of_added_edge_iff hinv.acyclic a b).mp ⟨v, ?_⟩)
      exact TransGen.mono (fun x y h => (dependsOn_add a b x y).mp h) _ _ hcycle
    · intro x y
      have hmirror := hinv.mirror x y
      simp only [SetMap.mem_members_add]
      tauto

theorem Inv.cascadeInvalidate (hinv : Inv c) (view : View) : Inv (c.cascadeInvalidate view).2 :=
  ⟨hinv.acyclic, hinv.mirror⟩

/-- Following the reverse map is following the dependency relation backwards. -/
theorem Inv.reverse_iff (hinv : Inv c) (v w : View) :
    ReflTransGen (Edge c.dependents.members) v w ↔ ReflTransGen c.DependsOn w v := by
  have hswap : Edge c.dependents.members = Function.swap c.DependsOn := by
    funext a b
    exact propext (hinv.mirror b a).symm
  rw [hswap, reflTransGen_swap]

end CascadeInvalidator

/-! ### Runs -/

open CascadeInvalidator

/-- The mutating calls. -/
inductive Op where
  | addDependency (dependentView dependencyView : View)
  | cascadeInvalidate (view : View)
  | clear

/-- The state a call leaves, whether it succeeds or fails. -/
def step (c : CascadeInvalidator) : Op → CascadeInvalidator
  | .addDependency a b => (c.addDependency a b).2
  | .cascadeInvalidate view => (c.cascadeInvalidate view).2
  | .clear => c.clear

/-- The state after a sequence of calls on a new invalidator. -/
def run (ops : List Op) : CascadeInvalidator := ops.foldl step new

theorem inv_step {c : CascadeInvalidator} (hinv : Inv c) (op : Op) : Inv (step c op) := by
  cases op with
  | addDependency a b => exact hinv.addDependency a b
  | cascadeInvalidate view => exact hinv.cascadeInvalidate view
  | clear => exact inv_new

theorem inv_run (ops : List Op) : Inv (run ops) := by
  have hfold : ∀ (ops : List Op) (c : CascadeInvalidator), Inv c → Inv (ops.foldl step c) := by
    intro ops
    induction ops with
    | nil => exact fun c hinv => hinv
    | cons op ops ih => exact fun c hinv => ih (step c op) (inv_step hinv op)
  exact hfold ops new inv_new

/-- After every sequence of calls the relation is acyclic and the maps mirror each other; a rejected
dependency changes nothing and is rejected exactly when it would close a cycle; a cascade from `v`
returns `v` and its transitive dependents, which are the views with a dependency path to `v`. -/
theorem cascade_run_correct (ops : List Op) :
    (∀ v, ¬TransGen (run ops).DependsOn v v) ∧
    (∀ a b, b ∈ (run ops).viewDependencies.members a ↔ a ∈ (run ops).dependents.members b) ∧
    (∀ a b e, ((run ops).addDependency a b).1 = .error e → ((run ops).addDependency a b).2 = run ops) ∧
    (∀ a b, (∃ e, ((run ops).addDependency a b).1 = .error e) ↔
      ∃ v, TransGen (fun x y => (run ops).DependsOn x y ∨ (x = a ∧ y = b)) v v) ∧
    (∀ v w, w ∈ ((run ops).cascadeInvalidate v).1 ↔
      w = v ∨ w ∈ (run ops).getTransitiveDependents v) ∧
    (∀ v w, w ∈ ((run ops).cascadeInvalidate v).1 ↔
      w = v ∨ (run ops).hasDependencyPath w v = true) := by
  have hinv := inv_run ops
  refine ⟨hinv.acyclic, hinv.mirror, ?_, ?_, ?_, ?_⟩
  · intro a b e herror
    obtain ⟨e', heq, _⟩ | ⟨_, heq⟩ := (run ops).addDependency_cases a b
    · rw [heq]
    · rw [heq] at herror
      cases herror
  · intro a b
    rw [cycle_of_added_edge_iff hinv.acyclic a b]
    obtain ⟨e', heq, hreach⟩ | ⟨hreach, heq⟩ := (run ops).addDependency_cases a b
    · exact ⟨fun _ => hreach, fun _ => ⟨e', by rw [heq]⟩⟩
    · constructor
      · rintro ⟨e, herror⟩
        rw [heq] at herror
        cases herror
      · exact fun h => absurd h hreach
  · intro v w
    constructor
    · exact fun hmem => .inr hmem
    · rintro (rfl | hmem)
      · exact (mem_collectDependents_iff _ w w).mpr ReflTransGen.refl
      · exact hmem
  · intro v w
    rw [hasDependencyPath_iff, show ((run ops).cascadeInvalidate v).1 = (run ops).collectDependents v from rfl,
      mem_collectDependents_iff, hinv.reverse_iff, reflTransGen_iff_eq_or_transGen]
    exact or_congr_left eq_comm

/-- The view itself is in its own cascade although it has no dependency path to itself. -/
theorem cascade_contains_view_without_path :
    ¬∀ (ops : List Op) (v w : View),
      w ∈ ((run ops).cascadeInvalidate v).1 ↔ (run ops).hasDependencyPath w v = true := by
  intro h
  have hpath := (h [.addDependency "v_analytics" "v_user"] "v_user" "v_user").mp (by decide)
  exact absurd hpath (by decide)

end FraiseQL.CacheCascade
