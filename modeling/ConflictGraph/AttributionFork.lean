import ConflictGraph.PyAttribution
import ConflictGraph.RustAttribution

/-!
# Forks in the two registries

Both registries learn a child from its parent: the registration that the parent has itself is
copied, and the parent link leads to any other. Neither removes what it has of the child's pid from
before. So a pid that is used again, its exit unseen, stays with the execution it was registered
for, unless its new parent has a registration of its own to put in the place.
-/

namespace ConflictGraph

section

variable {rustCalls : List Rust.AttributionRegistry.Call} {parent child : UInt32}
  {pyCalls : List Py.AttributionRegistry.Call} {parentPID childPID : ℤ}

/-- **A forked child is attributed as its parent is exactly if it is fresh**, in every state that
either registry reaches. -/
theorem takesAttribution_iff_fresh (hne : child ≠ parent)
    (habove : ¬ Above (Rust.AttributionRegistry.reached rustCalls).parents parent child)
    (hnear : ∀ n r, Nearest 0 (Rust.AttributionRegistry.reached rustCalls).processes
      (Rust.AttributionRegistry.reached rustCalls).parents n parent r → n < 63)
    (hne' : childPID ≠ parentPID)
    (habove' : ¬ Above (Py.AttributionRegistry.reached pyCalls).parents parentPID childPID) :
    ((Rust.AttributionRegistry.reached rustCalls).TakesAttribution parent child ↔
      Fresh 0 (Rust.AttributionRegistry.reached rustCalls).processes
        (Rust.AttributionRegistry.reached rustCalls).parents parent child) ∧
    ((Py.AttributionRegistry.reached pyCalls).TakesAttribution parentPID childPID ↔
      Fresh 0 (Py.AttributionRegistry.reached pyCalls).pids
        (Py.AttributionRegistry.reached pyCalls).parents parentPID childPID) :=
  ⟨Rust.AttributionRegistry.takesAttribution_iff hne habove hnear,
    Py.AttributionRegistry.takesAttribution_iff hne' habove'⟩

end

/-- The root process of a test forks. -/
def rustRoot : List Rust.AttributionRegistry.Call := [.register 0 "e1" "t1" 0 100]

def pyRoot : List Py.AttributionRegistry.Call :=
  [.register ⟨Py.str "e1", Py.str "t1", 0, 0, 100, 0⟩]

theorem takesAttribution_iff_fresh_root :
    (Rust.AttributionRegistry.reached rustRoot).TakesAttribution 100 101 ∧
      (Py.AttributionRegistry.reached pyRoot).TakesAttribution 100 101 := by
  have hiff := @takesAttribution_iff_fresh rustRoot 100 101 pyRoot 100 101 (by decide)
    (not_above_of_eq_none rfl)
    (fun n r h => by
      obtain ⟨rfl, -⟩ := h.eq_of_entry (w := ⟨"e1", "t1", 0, 100, 0⟩) (by decide)
      decide)
    (by decide) (not_above_of_eq_none rfl)
  refine ⟨hiff.1.mpr ⟨fun _ v hv => ?_, fun h => absurd h (by decide)⟩,
    hiff.2.mpr ⟨fun _ v hv => ?_, fun h => absurd h (by decide)⟩⟩
  · exact ⟨0, .here (by decide) hv⟩
  · exact ⟨0, .here (by decide) hv⟩

/-- Process 101 is forked by the root of a test; its exit is not seen, and process 5, which belongs
to no test, forks into the pid again. -/
def rustReused : List Rust.AttributionRegistry.Call := rustRoot ++ [.fork 100 101]

def pyReused : List Py.AttributionRegistry.Call := pyRoot ++ [.registerFork 100 101]

theorem not_takesAttribution_reused :
    ((∀ n r, ¬ Nearest 0 (Rust.AttributionRegistry.reached rustReused).processes
        (Rust.AttributionRegistry.reached rustReused).parents n 5 r) ∧
      ¬ Above (Rust.AttributionRegistry.reached rustReused).parents 5 101 ∧
      ¬ (Rust.AttributionRegistry.reached rustReused).TakesAttribution 5 101) ∧
    (∀ n r, ¬ Nearest 0 (Py.AttributionRegistry.reached pyReused).pids
        (Py.AttributionRegistry.reached pyReused).parents n 5 r) ∧
      ¬ Above (Py.AttributionRegistry.reached pyReused).parents 5 101 ∧
      ¬ (Py.AttributionRegistry.reached pyReused).TakesAttribution 5 101 := by
  refine ⟨⟨fun n r => not_nearest_of_eq_none rfl rfl, not_above_of_eq_none rfl, ?_⟩,
    fun n r => not_nearest_of_eq_none rfl rfl, not_above_of_eq_none rfl, ?_⟩
  · rw [Rust.AttributionRegistry.TakesAttribution]
    decide +kernel
  · rw [Py.AttributionRegistry.TakesAttribution]
    decide +kernel

end ConflictGraph
