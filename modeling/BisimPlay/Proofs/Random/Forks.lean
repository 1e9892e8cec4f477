import BisimPlay.Random.Source
import Mathlib.Algebra.BigOperators.Group.List.Basic
import Mathlib.Algebra.GroupWithZero.Nat
import Mathlib.Data.List.Nodup

/-!
# Families of random sources

A source can be forked again and again, and so can its forks, their forks and so on, in any
order. All of them make a family. A member is known by its line, which says of which fork of
which fork of the first source it is: forks are counted from one for each member, so the line
`[2, 1]` is that of the first fork of the second fork. A `Descent` is a line together with the
number of forks that the member has had; `descents` follows these while `family` makes the
sources, and `family_eq_map` says that one determines the other.

The seed of a member is as many strides away from the first seed as the ordinals along its line
add up to. The stride is odd, so no two of the first `2 ^ 64` multiples agree, and neither a
source and its forks nor two forks of one source share a seed. Sums of ordinals along different
lines agree easily, though: the second fork of a source is the same source as the first fork of
its first fork.
-/

namespace BisimPlay

namespace RandomSource

def strideFrom (seed : UInt64) (n : Nat) : UInt64 := seed + .ofNat n * forkStride

@[simp] theorem strideFrom_zero (seed : UInt64) : strideFrom seed 0 = seed := by
  simp [strideFrom]

theorem strideFrom_add (seed : UInt64) (m n : Nat) :
    strideFrom (strideFrom seed m) n = strideFrom seed (m + n) := by
  simp only [strideFrom, UInt64.ofNat_add, UInt64.add_mul, UInt64.add_assoc]

/-- The stride is odd and can be divided out. -/
theorem forkStride_mul_inverse : forkStride * 0xF1DE83E19937733D = 1 := by decide

/-- Strides come round only after as many as there are words. -/
theorem strideFrom_eq_iff (seed : UInt64) (m n : Nat) :
    strideFrom seed m = strideFrom seed n ↔
      m % 0x10000000000000000 = n % 0x10000000000000000 := by
  rw [strideFrom, strideFrom, UInt64.add_right_inj]
  constructor
  · intro h
    have hdivided := congrArg (· * 0xF1DE83E19937733D) h
    simp only [UInt64.mul_assoc, forkStride_mul_inverse, UInt64.mul_one] at hdivided
    simpa [UInt64.toNat_ofNat] using congrArg UInt64.toNat hdivided
  · intro h
    congr 1
    refine UInt64.toNat_inj.1 ?_
    simpa [UInt64.toNat_ofNat] using h

theorem strideFrom_inj (seed : UInt64) {m n : Nat} (hm : m < 0x10000000000000000)
    (hn : n < 0x10000000000000000) : strideFrom seed m = strideFrom seed n ↔ m = n := by
  rw [strideFrom_eq_iff, Nat.mod_eq_of_lt hm, Nat.mod_eq_of_lt hn]

/-- Have a member of a family forked. The fork joins the family at its end. -/
def forkAt (family : List RandomSource) (i : Nat) : List RandomSource :=
  match family[i]? with
  | none => family
  | some source => family.set i source.fork.2 ++ [source.fork.1]

/-- A source and all that comes of it when members of its family are forked in order. -/
def family (source : RandomSource) (order : List Nat) : List RandomSource :=
  order.foldl forkAt [source]

/-- Where a member of a family comes from, and how many forks it has had. -/
structure Descent where
  /-- Which fork it is of which fork, from the first source on. -/
  line : List Nat
  forks : Nat
deriving DecidableEq, Inhabited

namespace Descent

def heir (d : Descent) : Descent := ⟨d.line ++ [d.forks + 1], 0⟩

def forked (d : Descent) : Descent := { d with forks := d.forks + 1 }

/-- The member itself, when the family begins with a given seed and nothing has been drawn. -/
def source (seed : UInt64) (d : Descent) : RandomSource :=
  ⟨strideFrom seed d.line.sum, 0, .ofNat d.forks⟩

@[simp] theorem seed_source (seed : UInt64) (d : Descent) :
    (d.source seed).seed = strideFrom seed d.line.sum := rfl

theorem fork_source (seed : UInt64) (d : Descent) :
    (d.source seed).fork = (d.heir.source seed, d.forked.source seed) := by
  have hforks : UInt64.ofNat d.forks + 1 = .ofNat (d.forks + 1) := (UInt64.ofNat_add d.forks 1).symm
  have hheir : d.heir.source seed =
      ofSeed (strideFrom (strideFrom seed d.line.sum) (d.forks + 1)) := by
    rw [strideFrom_add, source, heir, List.sum_append, List.sum_singleton]
    rfl
  rw [hheir, source, fork, hforks]
  rfl

/-- A member and its own forks. -/
def HasClose (parent d : Descent) : Prop :=
  d.line = parent.line ∨ ∃ k, d.line = parent.line ++ [k]

end Descent

def descendAt (descents : List Descent) (i : Nat) : List Descent :=
  match descents[i]? with
  | none => descents
  | some d => descents.set i d.forked ++ [d.heir]

def descents (order : List Nat) : List Descent := order.foldl descendAt [⟨[], 0⟩]

theorem forkAt_map (seed : UInt64) (ds : List Descent) (i : Nat) :
    forkAt (ds.map (·.source seed)) i = (descendAt ds i).map (·.source seed) := by
  rw [forkAt, descendAt, List.getElem?_map]
  cases ds[i]? with
  | none => rfl
  | some d => simp [Descent.fork_source, List.map_set]

theorem family_eq_map (seed : UInt64) (order : List Nat) :
    family (ofSeed seed) order = (descents order).map (·.source seed) := by
  have hfirst : [ofSeed seed] = [(⟨[], 0⟩ : Descent)].map (·.source seed) := by
    simp [Descent.source, ofSeed]
  rw [family, descents, hfirst]
  exact List.foldl_hom (List.map (Descent.source seed)) fun ds i => forkAt_map seed ds i

theorem map_line_set {ds : List Descent} {i : Nat} {d : Descent} (hget : ds[i]? = some d) :
    (ds.set i d.forked).map Descent.line = ds.map Descent.line := by
  have hline : (ds.map Descent.line)[i]? = some d.line := by rw [List.getElem?_map, hget]; rfl
  rw [List.map_set, show d.forked.line = d.line from rfl]
  refine List.ext_getElem? fun j => ?_
  by_cases heq : i = j
  · rw [← heq, List.getElem?_set_self (List.getElem?_eq_some_iff.1 hline).1, hline]
  · rw [List.getElem?_set_ne heq]

theorem exists_mem_set {ds : List Descent} {i : Nat} {d member : Descent}
    (hget : ds[i]? = some d) (hmember : member ∈ ds) :
    ∃ after ∈ ds.set i d.forked, after.line = member.line ∧ member.forks ≤ after.forks := by
  obtain ⟨j, hj⟩ := List.mem_iff_getElem?.1 hmember
  by_cases heq : i = j
  · subst heq
    obtain rfl := Option.some.inj (hget.symm.trans hj)
    exact ⟨d.forked, List.mem_set (List.getElem?_eq_some_iff.1 hget).1 _, rfl, Nat.le_succ _⟩
  · refine ⟨member, List.mem_iff_getElem?.2 ⟨j, ?_⟩, rfl, Nat.le_refl _⟩
    rw [List.getElem?_set_ne heq, hj]

/-- Different members have different lines, and whoever is a fork is one of those that a member
has had. -/
structure IsFamilyTree (ds : List Descent) : Prop where
  nodup_lines : (ds.map Descent.line).Nodup
  exists_parent : ∀ d ∈ ds, ∀ line k, d.line = line ++ [k] →
    ∃ parent ∈ ds, parent.line = line ∧ 0 < k ∧ k ≤ parent.forks

namespace IsFamilyTree

variable {ds : List Descent}

theorem eq_of_line_eq (h : IsFamilyTree ds) {a b : Descent} (ha : a ∈ ds) (hb : b ∈ ds)
    (hline : a.line = b.line) : a = b :=
  List.inj_on_of_nodup_map h.nodup_lines ha hb hline

theorem line_heir_not_mem (h : IsFamilyTree ds) {d : Descent} (hd : d ∈ ds) :
    d.heir.line ∉ ds.map Descent.line := by
  intro hmem
  obtain ⟨other, hother, hline⟩ := List.mem_map.1 hmem
  obtain ⟨parent, hparent, hsame, _, hle⟩ := h.exists_parent other hother d.line _ hline
  rw [h.eq_of_line_eq hparent hd hsame] at hle
  exact Nat.not_succ_le_self _ hle

theorem descendAt (h : IsFamilyTree ds) (i : Nat) : IsFamilyTree (descendAt ds i) := by
  unfold RandomSource.descendAt
  split
  · exact h
  · next d hget =>
      have hd : d ∈ ds := List.mem_of_getElem? hget
      have hlt : i < ds.length := (List.getElem?_eq_some_iff.1 hget).1
      refine ⟨?_, fun member hmember line k hline => ?_⟩
      · rw [List.map_append, map_line_set hget]
        exact h.nodup_lines.append (List.nodup_singleton _)
          (List.disjoint_singleton.2 (h.line_heir_not_mem hd))
      · rcases List.mem_append.1 hmember with hold | hnew
        · obtain ⟨before, hbefore, hsame⟩ : ∃ before ∈ ds, before.line = member.line :=
            (List.mem_or_eq_of_mem_set hold).elim (fun hmem => ⟨member, hmem, rfl⟩)
              fun heq => ⟨d, hd, heq ▸ rfl⟩
          obtain ⟨parent, hparent, rfl, hpos, hle⟩ :=
            h.exists_parent before hbefore line k (hsame.trans hline)
          obtain ⟨after, hafter, hkept, hforks⟩ := exists_mem_set hget hparent
          exact ⟨after, List.mem_append_left _ hafter, hkept, hpos, Nat.le_trans hle hforks⟩
        · -- the new member is the last fork of the one that has just been forked
          rw [List.mem_singleton.1 hnew, Descent.heir] at hline
          obtain ⟨rfl, hlast⟩ := List.append_inj' hline rfl
          obtain rfl := (List.cons.inj hlast).1
          exact ⟨d.forked, List.mem_append_left _ (List.mem_set hlt _), rfl, Nat.succ_pos _,
            Nat.le_refl _⟩

/-- The members that are close to one of them lie fewer strides beyond it than it has had
forks, or as many. -/
theorem exists_sum_line_eq (h : IsFamilyTree ds) {parent d : Descent} (hparent : parent ∈ ds)
    (hd : d ∈ ds) (hclose : parent.HasClose d) :
    ∃ k ≤ parent.forks, d.line.sum = parent.line.sum + k ∧
      d.line = if k = 0 then parent.line else parent.line ++ [k] := by
  rcases hclose with hself | ⟨k, hfork⟩
  · exact ⟨0, Nat.zero_le _, by rw [hself]; rfl, hself⟩
  · obtain ⟨found, hfound, hline, hpos, hle⟩ := h.exists_parent d hd _ k hfork
    rw [h.eq_of_line_eq hfound hparent hline] at hle
    exact ⟨k, hle, by rw [hfork, List.sum_append, List.sum_singleton], by
      rw [if_neg (Nat.ne_of_gt hpos), hfork]⟩

end IsFamilyTree

theorem isFamilyTree_descents (order : List Nat) : IsFamilyTree (descents order) := by
  refine List.foldlRecOn order descendAt ⟨List.nodup_singleton _, fun d hd line k hline => ?_⟩
    fun ds hds i _ => hds.descendAt i
  rw [List.mem_singleton.1 hd] at hline
  exact absurd hline (by simp)

/-- The seeds of a family. The members have different lines. Two of them have the same seed if
and only if the ordinals along their lines add up to the same number of strides, up to multiples
of the number of words. So a member and its own forks all have different seeds, as long as it
has been forked fewer than `2 ^ 64` times. -/
theorem seed_eq_iff_of_family (seed : UInt64) (order : List Nat) :
    family (ofSeed seed) order = (descents order).map (·.source seed) ∧
      ((descents order).map Descent.line).Nodup ∧
      (∀ a b : Descent, (a.source seed).seed = (b.source seed).seed ↔
        a.line.sum % 0x10000000000000000 = b.line.sum % 0x10000000000000000) ∧
      ∀ parent ∈ descents order, parent.forks < 0x10000000000000000 →
        ∀ a ∈ descents order, ∀ b ∈ descents order, parent.HasClose a → parent.HasClose b →
          a.line ≠ b.line → (a.source seed).seed ≠ (b.source seed).seed := by
  have htree := isFamilyTree_descents order
  refine ⟨family_eq_map seed order, htree.nodup_lines, fun a b => strideFrom_eq_iff seed _ _,
    fun parent hparent hforks a ha b hb hcloseA hcloseB hne hseed => hne ?_⟩
  obtain ⟨k, hk, hsumA, hlineA⟩ := htree.exists_sum_line_eq hparent ha hcloseA
  obtain ⟨l, hl, hsumB, hlineB⟩ := htree.exists_sum_line_eq hparent hb hcloseB
  rw [Descent.seed_source, Descent.seed_source, hsumA, hsumB, ← strideFrom_add,
    ← strideFrom_add, strideFrom_inj _ (Nat.lt_of_le_of_lt hk hforks)
      (Nat.lt_of_le_of_lt hl hforks)] at hseed
  rw [hlineA, hlineB, hseed]

/-- A source that is forked twice, with a fork of its first fork in between: it and its own two
forks have three different seeds. -/
theorem seed_ne_of_family_three :
    descents [0, 1, 0] = [⟨[], 2⟩, ⟨[1], 1⟩, ⟨[1, 1], 0⟩, ⟨[2], 0⟩] ∧
      (Descent.source 7 ⟨[1], 1⟩).seed ≠ (Descent.source 7 ⟨[2], 0⟩).seed ∧
      (Descent.source 7 ⟨[], 2⟩).seed ≠ (Descent.source 7 ⟨[2], 0⟩).seed := by
  obtain ⟨_, _, _, hdiffer⟩ := seed_eq_iff_of_family 7 [0, 1, 0]
  have hclose := hdiffer ⟨[], 2⟩ (by decide) (by decide)
  exact ⟨by decide, hclose ⟨[1], 1⟩ (by decide) ⟨[2], 0⟩ (by decide) (.inr ⟨1, rfl⟩)
    (.inr ⟨2, rfl⟩) (by decide), hclose ⟨[], 2⟩ (by decide) ⟨[2], 0⟩ (by decide) (.inl rfl)
    (.inr ⟨2, rfl⟩) (by decide)⟩

/-- Not all members of a family have different seeds: the first fork of the first fork has the
seed of the second fork. -/
theorem not_forall_nodup_seeds :
    ¬ ∀ (seed : UInt64) (order : List Nat),
      (∀ d ∈ descents order, d.forks < 0x10000000000000000) →
        ((family (ofSeed seed) order).map RandomSource.seed).Nodup := by
  intro h
  have hthree := h 7 [0, 1, 0] (by decide)
  exact absurd hthree (by decide)

end RandomSource

end BisimPlay
