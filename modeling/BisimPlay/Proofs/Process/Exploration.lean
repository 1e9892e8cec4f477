import BisimPlay.Process.Explore
import BisimPlay.Proofs.Process.WeakSteps
import BisimPlay.Proofs.Search.Distance

/-!
# What exploring lists

Exploring a process lists what lies within the limit: the process itself, and each process
whose distance, in steps of the semantics, is below the limit. Nearer processes come first,
every process comes once, and with all of its steps (`explore_lists_by_distance`).

The list is what a queue visits in which every process stands with its depth. The queue is
worked off, and no depth exceeds the limit, so whatever word holds the limit can count the
depths.
-/

namespace BisimPlay

namespace TransitionSystem

def Moves (lts : TransitionSystem) : Semantics → ProcessId → ProcessId → Prop
  | .strong, p, q => ∃ a, ⟨a, q⟩ ∈ lts.transitions p
  | .weak, p, q => ∃ a, lts.WeakStep p a q

def targets (lts : TransitionSystem) (semantics : Semantics) (p : ProcessId) :
    List ProcessId :=
  (lts.steps semantics p).map (·.target)

theorem mem_targets_iff (lts : TransitionSystem) (semantics : Semantics) (p q : ProcessId) :
    q ∈ lts.targets semantics p ↔ lts.Moves semantics p q := by
  have hsteps : q ∈ lts.targets semantics p ↔ ∃ a, ⟨a, q⟩ ∈ lts.steps semantics p := by
    rw [targets, List.mem_map]
    constructor
    · rintro ⟨⟨a, r⟩, hstep, rfl⟩
      exact ⟨a, hstep⟩
    · rintro ⟨a, hstep⟩
      exact ⟨_, hstep, rfl⟩
  cases semantics with
  | strong => exact hsteps
  | weak => exact hsteps.trans (exists_congr fun a => lts.mem_weakSteps_iff p q a)

/-- Exploring a process from a limit on comes to an end, with no depth above the limit, or
above one. It lists each process once whose distance is below that, with all of its steps,
and no other: first the process where it starts, and no process before a nearer one. -/
theorem explore_lists_by_distance (lts : TransitionSystem) (semantics : Semantics)
    (start : ProcessId) (limit : Nat) :
    let listed := (lts.explore semantics start limit).map (·.process)
    (∃ order, Search.Expands (lts.targets semantics) limit [start] [(1, start)] order ∧
      lts.explore semantics start limit =
        order.map (fun entry => ⟨entry.2, lts.steps semantics entry.2⟩) ∧
      ∀ entry ∈ order, entry.1 ≤ max limit 1) ∧
    listed.Nodup ∧
    (∀ p, p ∈ listed ↔
      ∃ d < max limit 1, Search.IsDistance (lts.Moves semantics) start p d) ∧
    listed.head? = some start ∧
    listed.Pairwise fun p q => ∀ d e, Search.IsDistance (lts.Moves semantics) start p d →
      Search.IsDistance (lts.Moves semantics) start q e → d ≤ e := by
  intro listed
  have hmoves : (fun p q => q ∈ lts.targets semantics p) = lts.Moves semantics := by
    funext p q
    exact propext (lts.mem_targets_iff semantics p q)
  obtain ⟨order, hexpands, hplaces, hsorted, hmem⟩ :=
    Search.exists_expands_within (lts.targets semantics) start limit
  rw [hmoves] at hmem
  have hexplore : lts.explore semantics start limit =
      order.map fun entry => ⟨entry.2, lts.steps semantics entry.2⟩ := by
    rw [explore_eq]
    exact (congrArg (List.map _) hplaces.symm).trans (List.map_map ..)
  have hlisted : listed = order.map Prod.snd := by
    rw [show listed = _ from congrArg (List.map _) hexplore, List.map_map]
    rfl
  refine ⟨⟨order, hexpands, hexplore, fun entry hentry => ?depths⟩, ?once, fun p => ?members,
    ?first, ?sorted⟩
  case depths =>
    obtain ⟨d, hd, hdepth, -⟩ := (hmem entry.1 entry.2).1 hentry
    rw [hdepth]
    exact hd
  case once =>
    rw [hlisted, hplaces]
    exact Search.nodup_within _ _ _
  case members =>
    rw [hlisted, List.mem_map]
    constructor
    · rintro ⟨⟨depth, q⟩, hentry, rfl⟩
      obtain ⟨d, hd, -, hdistance⟩ := (hmem depth q).1 hentry
      exact ⟨d, hd, hdistance⟩
    · rintro ⟨d, hd, hdistance⟩
      exact ⟨(d + 1, p), (hmem _ _).2 ⟨d, hd, rfl, hdistance⟩, rfl⟩
  case first =>
    -- a queue that begins with the start visits it first
    cases hexpands with
    | cons _ =>
        rw [hlisted]
        rfl
  case sorted =>
    rw [hlisted, List.pairwise_map]
    refine hsorted.imp_of_mem ?_
    rintro ⟨depth, p⟩ ⟨deeper, q⟩ hp hq hle d e hd he
    obtain ⟨d', -, rfl, hd'⟩ := (hmem _ _).1 hp
    obtain ⟨e', -, rfl, he'⟩ := (hmem _ _).1 hq
    rw [hd.unique hd', he.unique he']
    exact Nat.le_of_succ_le_succ hle

/-- In weak steps `Q` and `R` are both next to `P`, and a limit of two lists no more. -/
example :
    explore ⟨#[⟨"P", [⟨.tau, .ofIndex 1⟩]⟩, ⟨"Q", [⟨⟨"a"⟩, .ofIndex 2⟩]⟩,
        ⟨"R", [⟨⟨"b"⟩, .ofIndex 3⟩, ⟨⟨"b"⟩, .ofIndex 0⟩]⟩]⟩ .weak (.ofIndex 0) 2 =
      [⟨.ofIndex 0, [⟨.tau, .ofIndex 0⟩, ⟨.tau, .ofIndex 1⟩, ⟨⟨"a"⟩, .ofIndex 2⟩]⟩,
        ⟨.ofIndex 1, [⟨.tau, .ofIndex 1⟩, ⟨⟨"a"⟩, .ofIndex 2⟩]⟩,
        ⟨.ofIndex 2, [⟨.tau, .ofIndex 2⟩, ⟨⟨"b"⟩, .ofIndex 3⟩, ⟨⟨"b"⟩, .ofIndex 0⟩,
          ⟨⟨"b"⟩, .ofIndex 1⟩]⟩] := by
  rw [explore_eq]
  decide +kernel

end TransitionSystem

end BisimPlay
