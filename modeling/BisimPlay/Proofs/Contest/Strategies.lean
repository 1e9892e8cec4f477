import BisimPlay.Proofs.Arena.Plays
import BisimPlay.Proofs.Contest.Selection

/-!
# Winning by the levels

In a solved contest the levels tell both roles how to move. Where the attacker wins it
has an attack to a lower level, and all answers lead lower still, so best attacks bring
the level down with every move. The defender is stuck at level 1 and nowhere else, so an
attacker at a finite level wins within as many moves as the level allows. It can not do
better: the defender has an answer that gives away one level only, and an attack gives
away one level at most.

Where the attacker does not win every attack stays at infinity, and there is an answer
that stays there too, so the defender is never stuck.
-/

namespace BisimPlay

namespace Contest

variable {attacker defender : Semantics} {contest : Contest} {n : NodeId}

theorem exists_bestAttack_eq_ok {moves : List Move}
    (h : ∃ move ∈ moves, contest.level move.next < contest.level n) :
    ∃ move ∈ moves, lowest? contest.ranking (contest.level n) moves = some move ∧
      contest.bestAttack n moves = .ok move ∧ contest.level move.next < contest.level n := by
  cases hbest : lowest? contest.ranking (contest.level n) moves with
  | none =>
      obtain ⟨move, hmem, hlt⟩ := h
      exact absurd hlt ((lowest?_eq_none_iff _ _ _).1 hbest move hmem)
  | some best =>
      obtain ⟨hmem, hlt⟩ := of_lowest?_eq_some hbest
      refine ⟨best, hmem, rfl, ?_, hlt⟩
      cases moves with
      | nil => exact absurd hmem List.not_mem_nil
      | cons first rest => rw [bestAttack, hbest, Option.getD_some]

theorem exists_soundDefence_eq_ok {moves : List Move}
    (h : ∃ move ∈ moves, contest.level move.next = .infinity) :
    ∃ move ∈ moves, contest.soundDefence moves = .ok move ∧
      contest.level move.next = .infinity := by
  obtain ⟨safe, hsafe, hinfinity⟩ := h
  cases hdefence : contest.soundDefence moves with
  | error fault =>
      rcases soundDefence_eq_error_iff.1 hdefence with ⟨rfl, -⟩ | ⟨-, hone, -⟩
      · exact absurd hsafe List.not_mem_nil
      · exact absurd hinfinity ((Ranking.marking_eq_one_iff _ _).1 (hone safe hsafe))
  | ok move =>
      have hfirst := soundDefence_eq_ok_iff.1 hdefence
      exact ⟨move, hfirst.mem, rfl, (Ranking.marking_eq_zero_iff _ _).1 hfirst.1⟩

namespace IsSolved

theorem exists_attack_lt (h : contest.IsSolved attacker defender)
    (hn : contest.level n ≠ .infinity) (hturn : contest.arena.turn? n = some .attacker) :
    ∃ move ∈ contest.arena.moves n .attacker,
      contest.level move.next < contest.level n := by
  obtain ⟨edge, hedge, htargets⟩ := h.isExact.exists_edge_lt hn
  obtain ⟨move, hmove, rfl⟩ := (h.isComplete.mem_hyperedges_iff hturn edge).1 hedge
  exact ⟨move, hmove, htargets _ (List.mem_singleton_self _)⟩

theorem answer_lt (h : contest.IsSolved attacker defender)
    (hn : contest.level n ≠ .infinity) (hturn : contest.arena.turn? n = some .defender)
    {move : Move} (hmove : move ∈ contest.arena.moves n .defender) :
    contest.level move.next < contest.level n := by
  obtain ⟨edge, hedge, htargets⟩ := h.isExact.exists_edge_lt hn
  rw [h.isComplete.mem_hyperedges_iff_eq hturn] at hedge
  rw [hedge] at htargets
  exact htargets _ (List.mem_map_of_mem hmove)

theorem le_attack (h : contest.IsSolved attacker defender)
    (hturn : contest.arena.turn? n = some .attacker) {move : Move}
    (hmove : move ∈ contest.arena.moves n .attacker) :
    (contest.level n).toNat ≤ (contest.level move.next).toNat + 1 := by
  rcases Nat.lt_or_ge 1 (contest.level n).toNat with hn | hn
  · have hedge := (h.isComplete.mem_hyperedges_iff hturn _).2 ⟨move, hmove, rfl⟩
    obtain ⟨target, ht, hle⟩ := h.isExact.exists_target_le hedge hn
    rw [List.mem_singleton] at ht
    rwa [ht] at hle
  · exact Nat.le_add_left_of_le hn

theorem exists_answer_le (h : contest.IsSolved attacker defender)
    (hturn : contest.arena.turn? n = some .defender)
    (hn : 1 < (contest.level n).toNat) :
    ∃ move ∈ contest.arena.moves n .defender,
      (contest.level n).toNat ≤ (contest.level move.next).toNat + 1 := by
  have hedge := (h.isComplete.mem_hyperedges_iff_eq hturn _).2 rfl
  obtain ⟨target, ht, hle⟩ := h.isExact.exists_target_le hedge hn
  obtain ⟨move, hmove, rfl⟩ := List.mem_map.1 ht
  exact ⟨move, hmove, hle⟩

theorem attack_eq_infinity (h : contest.IsSolved attacker defender)
    (hn : contest.level n = .infinity) (hturn : contest.arena.turn? n = some .attacker)
    {move : Move} (hmove : move ∈ contest.arena.moves n .attacker) :
    contest.level move.next = .infinity := by
  have hedge := (h.isComplete.mem_hyperedges_iff hturn _).2 ⟨move, hmove, rfl⟩
  obtain ⟨target, ht, hinfinity⟩ := h.isExact.exists_target_eq_infinity hn hedge
  rw [List.mem_singleton] at ht
  rwa [ht] at hinfinity

theorem exists_answer_eq_infinity (h : contest.IsSolved attacker defender)
    (hn : contest.level n = .infinity) (hturn : contest.arena.turn? n = some .defender) :
    ∃ move ∈ contest.arena.moves n .defender, contest.level move.next = .infinity := by
  have hedge := (h.isComplete.mem_hyperedges_iff_eq hturn _).2 rfl
  obtain ⟨target, ht, hinfinity⟩ := h.isExact.exists_target_eq_infinity hn hedge
  obtain ⟨move, hmove, rfl⟩ := List.mem_map.1 ht
  exact ⟨move, hmove, hinfinity⟩

end IsSolved

def bestAttacks (contest : Contest) : Policy :=
  fun _ n move => contest.bestAttack n (contest.arena.moves n .attacker) = .ok move

def soundDefences (contest : Contest) : Policy :=
  fun _ n move => contest.soundDefence (contest.arena.moves n .defender) = .ok move

/-- The level went down with every move of a play, and it is still finite. -/
structure Descends (contest : Contest) (start : NodeId) (history : List Move)
    (n : NodeId) : Prop where
  ne_infinity : contest.level n ≠ .infinity
  length_add_le :
    history.length + (contest.level n).toNat ≤ (contest.level start).toNat
  le_visited : ∀ m ∈ Arena.visited start history,
    (contest.level n).toNat ≤ (contest.level m).toNat
  pairwise : (Arena.visited start history).Pairwise fun earlier later =>
    contest.level later < contest.level earlier

variable {start : NodeId} {history : List Move} {attack answer : Policy}

theorem descends_nil (hstart : contest.level start ≠ .infinity) :
    contest.Descends start [] start := by
  refine ⟨hstart, by simp, ?_, by simp⟩
  intro m hm
  rw [Arena.visited_nil, List.mem_singleton] at hm
  rw [hm]

theorem Descends.move (h : contest.Descends start history n) {move : Move}
    (hlt : contest.level move.next < contest.level n) :
    contest.Descends start (history ++ [move]) move.next := by
  rw [Level.lt_iff] at hlt
  have hlength := h.length_add_le
  have hfinite := Level.toNat_lt_of_ne_infinity h.ne_infinity
  have hbelow (m : NodeId) (hm : m ∈ Arena.visited start history) :
      (contest.level move.next).toNat < (contest.level m).toNat :=
    Nat.lt_of_lt_of_le hlt (h.le_visited m hm)
  constructor
  · intro hinfinity
    rw [hinfinity, Level.toNat_infinity] at hlt
    omega
  · rw [List.length_append, List.length_singleton]
    omega
  · intro m hm
    rw [Arena.visited_append_singleton, List.mem_append, List.mem_singleton] at hm
    rcases hm with hm | rfl
    · exact Nat.le_of_lt (hbelow m hm)
    · exact Nat.le_refl _
  · rw [Arena.visited_append_singleton, List.pairwise_append]
    refine ⟨h.pairwise, List.pairwise_singleton _ _, fun m hm last hlast => ?_⟩
    rw [List.mem_singleton] at hlast
    rw [hlast, Level.lt_iff]
    exact hbelow m hm

namespace IsSolved

theorem descends (h : contest.IsSolved attacker defender)
    (hstart : contest.level start ≠ .infinity)
    (hplay : contest.arena.Play contest.bestAttacks answer start history n) :
    contest.Descends start history n := by
  induction hplay with
  | start => exact descends_nil hstart
  | attack _ hturn hmove hallowed ih =>
      obtain ⟨move, _, _, hbest, hlt⟩ :=
        exists_bestAttack_eq_ok (h.exists_attack_lt ih.ne_infinity hturn)
      obtain rfl := Except.ok.inj (hbest.symm.trans hallowed)
      exact ih.move hlt
  | answer _ hturn hmove _ ih => exact ih.move (h.answer_lt ih.ne_infinity hturn hmove)

theorem length_le_of_descends (h : contest.IsSolved attacker defender)
    (hdescends : contest.Descends start history n) :
    history.length ≤ (contest.level start).toNat - 1 := by
  have hpos := h.isExact.toNat_pos n
  exact Nat.le_sub_of_add_le (Nat.le_trans (Nat.add_le_add_left hpos _)
    hdescends.length_add_le)

theorem exists_turn?_eq_some (h : contest.IsSolved attacker defender)
    (hn : contest.level n ≠ .infinity) : ∃ role, contest.arena.turn? n = some role := by
  have hlt := h.isExact.index_lt hn
  rw [Hypergraph.size, Arena.hypergraph, h.isComplete.size_edges] at hlt
  exact ⟨_, by rw [Arena.turn?, Arena.position?, Array.getElem?_eq_getElem hlt, Option.map_some]⟩

/-- A play with best attacks goes on until the defender is stuck. -/
theorem isStuck_or_exists_play (h : contest.IsSolved attacker defender)
    (hstart : contest.level start ≠ .infinity)
    (hanswer : ∀ history n, contest.arena.moves n .defender ≠ [] →
      ∃ move ∈ contest.arena.moves n .defender, answer history n move)
    (hplay : contest.arena.Play contest.bestAttacks answer start history n) :
    contest.arena.IsStuck .defender n ∨ ∃ move,
      contest.arena.Play contest.bestAttacks answer start (history ++ [move]) move.next := by
  have hn := (h.descends hstart hplay).ne_infinity
  obtain ⟨role, hturn⟩ := h.exists_turn?_eq_some hn
  cases role with
  | attacker =>
      obtain ⟨move, hmove, _, hbest, _⟩ :=
        exists_bestAttack_eq_ok (h.exists_attack_lt hn hturn)
      exact .inr ⟨move, hplay.attack hturn hmove hbest⟩
  | defender =>
      by_cases hnone : contest.arena.moves n .defender = []
      · exact .inl ⟨hturn, hnone⟩
      · obtain ⟨move, hmove, hallowed⟩ := hanswer history n hnone
        exact .inr ⟨move, hplay.answer hturn hmove hallowed⟩

theorem exists_play_isStuck (h : contest.IsSolved attacker defender)
    (hstart : contest.level start ≠ .infinity)
    (hanswer : ∀ history n, contest.arena.moves n .defender ≠ [] →
      ∃ move ∈ contest.arena.moves n .defender, answer history n move) :
    ∃ history n, contest.arena.Play contest.bestAttacks answer start history n ∧
      history.length ≤ (contest.level start).toNat - 1 ∧
      contest.arena.IsStuck .defender n := by
  obtain ⟨history, n, hplay, hstuck⟩ := Arena.exists_play_isStuck
    (fun _ _ hplay => h.length_le_of_descends (h.descends hstart hplay))
    (fun _ _ hplay => h.isStuck_or_exists_play hstart hanswer hplay)
  exact ⟨history, n, hplay, h.length_le_of_descends (h.descends hstart hplay), hstuck⟩

/-- The defender has answers that give away one level at most. -/
theorem exists_answers (h : contest.IsSolved attacker defender) :
    ∃ answer : NodeId → Move, ∀ n, contest.arena.moves n .defender ≠ [] →
      answer n ∈ contest.arena.moves n .defender ∧
        (contest.level n).toNat ≤ (contest.level (answer n).next).toNat + 1 := by
  have hchoice (n : NodeId) : ∃ move, contest.arena.moves n .defender ≠ [] →
      move ∈ contest.arena.moves n .defender ∧
        (contest.level n).toNat ≤ (contest.level move.next).toNat + 1 := by
    by_cases hnone : contest.arena.moves n .defender = []
    · exact ⟨default, fun hsome => absurd hnone hsome⟩
    · obtain ⟨first, hfirst⟩ := List.exists_mem_of_ne_nil _ hnone
      rcases Nat.lt_or_ge 1 (contest.level n).toNat with hn | hn
      · obtain ⟨move, hmove, hle⟩ :=
          h.exists_answer_le (Arena.turn?_of_mem_moves_defender hfirst) hn
        exact ⟨move, fun _ => ⟨hmove, hle⟩⟩
      · exact ⟨first, fun _ => ⟨hfirst, Nat.le_add_left_of_le hn⟩⟩
  exact Classical.skolem.1 hchoice

theorem le_length_add (h : contest.IsSolved attacker defender)
    {answer : NodeId → Move}
    (hanswer : ∀ n, contest.arena.moves n .defender ≠ [] →
      answer n ∈ contest.arena.moves n .defender ∧
        (contest.level n).toNat ≤ (contest.level (answer n).next).toNat + 1)
    (hplay : contest.arena.Play attack (.ofStrategy fun _ => answer) start history n) :
    (contest.level start).toNat ≤ history.length + (contest.level n).toNat := by
  induction hplay with
  | start => exact Nat.le_add_left _ _
  | attack _ hturn hmove _ ih =>
      have hle := h.le_attack hturn hmove
      rw [List.length_append, List.length_singleton]
      omega
  | answer _ _ hmove hallowed ih =>
      obtain ⟨_, hle⟩ := hanswer _ (List.ne_nil_of_mem hmove)
      rw [← show _ = answer _ from hallowed] at hle
      rw [List.length_append, List.length_singleton]
      omega

theorem toNat_le_of_isStuck (h : contest.IsSolved attacker defender)
    (hstuck : contest.arena.IsStuck .defender n) : (contest.level n).toNat ≤ 1 := by
  by_contra hn
  obtain ⟨move, hmove, _⟩ := h.exists_answer_le hstuck.1 (Nat.lt_of_not_le hn)
  rw [hstuck.2] at hmove
  exact absurd hmove List.not_mem_nil

theorem eq_infinity_of_play (h : contest.IsSolved attacker defender)
    (hstart : contest.level start = .infinity)
    (hplay : contest.arena.Play attack contest.soundDefences start history n) :
    contest.level n = .infinity ∧
      ∀ m ∈ Arena.visited start history, contest.level m = .infinity := by
  induction hplay with
  | start => simp [hstart]
  | attack _ hturn hmove _ ih =>
      have hnext := h.attack_eq_infinity ih.1 hturn hmove
      simpa [hnext, or_imp, forall_and] using ih.2
  | answer _ hturn hmove hallowed ih =>
      obtain ⟨move, _, hdefence, hnext⟩ :=
        exists_soundDefence_eq_ok (h.exists_answer_eq_infinity ih.1 hturn)
      obtain rfl := Except.ok.inj (hdefence.symm.trans hallowed)
      simpa [hnext, or_imp, forall_and] using ih.2

end IsSolved

/-- At a finite level the attacker wins. With best attacks the level goes down with every
move, whatever the defender answers, and the defender is stuck after at most one move
less than the level; some answers keep it from being stuck any earlier, whatever the
attacks. -/
theorem bestAttack_ofNames_wins_in_level (lts : TransitionSystem)
    (attacker defender : Semantics) (left right : String) (p q : ProcessId)
    (hleft : lts.process? left = some p) (hright : lts.process? right = some q) :
    ∃ contest, ofNames lts attacker defender left right = .ok contest ∧
      (contest.arena.size < 0xFFFFFFFF →
        ∀ start, contest.level start ≠ .infinity →
          (∀ history n, contest.arena.Play contest.bestAttacks .free start history n →
            (Arena.visited start history).Pairwise
              (fun earlier later => contest.level later < contest.level earlier) ∧
            history.length ≤ (contest.level start).toNat - 1 ∧
            (contest.arena.turn? n = some .attacker →
              ∃ move ∈ contest.arena.moves n .attacker,
                contest.bestAttack n (contest.arena.moves n .attacker) = .ok move ∧
                lowest? contest.ranking (contest.level n)
                  (contest.arena.moves n .attacker) = some move)) ∧
          (∀ answer : List Move → NodeId → Move,
            (∀ history n, contest.arena.moves n .defender ≠ [] →
              answer history n ∈ contest.arena.moves n .defender) →
            ∃ history n,
              contest.arena.Play contest.bestAttacks (.ofStrategy answer) start history n ∧
              history.length ≤ (contest.level start).toNat - 1 ∧
              contest.arena.IsStuck .defender n) ∧
          (∃ answer : NodeId → Move,
            (∀ n, contest.arena.moves n .defender ≠ [] →
              answer n ∈ contest.arena.moves n .defender) ∧
            ∀ attack history n,
              contest.arena.Play attack (.ofStrategy fun _ => answer) start history n →
              history.length < (contest.level start).toNat - 1 →
              ¬ contest.arena.IsStuck .defender n)) := by
  refine ⟨_, ofNames_eq_ok lts attacker defender left right p q hleft hright, ?_⟩
  intro hsize start hstart
  have hsolved := isSolved_ofProcesses lts attacker defender p q hsize
  refine ⟨?_, ?_, ?_⟩
  · intro history n hplay
    have hdescends := hsolved.descends hstart hplay
    refine ⟨hdescends.pairwise, hsolved.length_le_of_descends hdescends, fun hturn => ?_⟩
    obtain ⟨move, hmove, hlowest, hbest, _⟩ :=
      exists_bestAttack_eq_ok (hsolved.exists_attack_lt hdescends.ne_infinity hturn)
    exact ⟨move, hmove, hbest, hlowest⟩
  · intro answer hanswer
    exact hsolved.exists_play_isStuck hstart
      fun history n hsome => ⟨answer history n, hanswer history n hsome, rfl⟩
  · obtain ⟨answer, hanswer⟩ := hsolved.exists_answers
    refine ⟨answer, fun n hsome => (hanswer n hsome).1, ?_⟩
    intro attack history n hplay hshort hstuck
    have hle := hsolved.le_length_add hanswer hplay
    have hlast := hsolved.toNat_le_of_isStuck hstuck
    omega

theorem bestAttack_wins_turns :
    ∃ contest, ofNames turns .strong .strong "X" "Z" = .ok contest ∧
      contest.level .root = .ofRound 4 ∧
      (∃ history n,
        contest.arena.Play contest.bestAttacks
          (.ofStrategy fun _ n => (contest.arena.moves n .defender).headD default)
          .root history n ∧
        history.length ≤ 3 ∧ contest.arena.IsStuck .defender n) ∧
      ∃ answer : NodeId → Move, ∀ attack history n,
        contest.arena.Play attack (.ofStrategy fun _ => answer) .root history n →
        history.length < 3 → ¬ contest.arena.IsStuck .defender n := by
  obtain ⟨hleft, _, hright⟩ := process?_turns
  obtain ⟨contest, hcontest, hwins⟩ :=
    bestAttack_ofNames_wins_in_level turns .strong .strong "X" "Z" _ _ hleft hright
  have heq := ofNames_eq_ok turns .strong .strong "X" "Z" _ _ hleft hright
  obtain rfl := Except.ok.inj (hcontest.symm.trans heq)
  have hlevel : (ofProcesses turns .strong .strong (.ofIndex 0) (.ofIndex 2)).level .root =
      .ofRound 4 := by
    rw [level, ranking_ofProcesses]
    decide +kernel
  have hfour : (Level.ofRound 4).toNat - 1 = 3 := by decide
  obtain ⟨_, hreach, answer, _, hlast⟩ := hwins (size_arena_turns_lt _ _ _ _) .root
    (by rw [hlevel]; decide)
  rw [hlevel, hfour] at hreach hlast
  refine ⟨_, heq, hlevel, hreach _ fun history n hsome => ?_, answer, hlast⟩
  obtain ⟨first, rest, hmoves⟩ := List.exists_cons_of_ne_nil hsome
  rw [hmoves]
  exact List.mem_cons_self

/-- At infinity the defender does not lose. Whatever the attacks, sound defences keep
every node of a play at infinity, there is one wherever the defender is to move, and so
the defender is never stuck. -/
theorem soundDefence_ofNames_never_fails (lts : TransitionSystem)
    (attacker defender : Semantics) (left right : String) (p q : ProcessId)
    (hleft : lts.process? left = some p) (hright : lts.process? right = some q) :
    ∃ contest, ofNames lts attacker defender left right = .ok contest ∧
      (contest.arena.size < 0xFFFFFFFF →
        (contest.isBisimilar = true → contest.ranking.marking .root = .zero) ∧
        ∀ start, contest.ranking.marking start = .zero →
          ∀ attack history n,
            contest.arena.Play attack contest.soundDefences start history n →
            (∀ m ∈ Arena.visited start history, contest.ranking.marking m = .zero) ∧
            contest.ranking.marking n = .zero ∧
            ¬ contest.arena.IsStuck .defender n ∧
            (contest.arena.turn? n = some .defender →
              ∃ move ∈ contest.arena.moves n .defender,
                contest.soundDefence (contest.arena.moves n .defender) = .ok move)) := by
  refine ⟨_, ofNames_eq_ok lts attacker defender left right p q hleft hright, ?_⟩
  intro hsize
  have hsolved := isSolved_ofProcesses lts attacker defender p q hsize
  refine ⟨of_decide_eq_true, ?_⟩
  intro start hstart attack history n hplay
  rw [Ranking.marking_eq_zero_iff] at hstart
  obtain ⟨hn, hvisited⟩ := hsolved.eq_infinity_of_play hstart hplay
  simp only [Ranking.marking_eq_zero_iff]
  refine ⟨hvisited, hn, ?_, fun hturn => ?_⟩
  · intro hstuck
    have hle := hsolved.toNat_le_of_isStuck hstuck
    rw [hn, Level.toNat_infinity] at hle
    exact absurd hle (by decide)
  · obtain ⟨move, hmove, hdefence, _⟩ :=
      exists_soundDefence_eq_ok (hsolved.exists_answer_eq_infinity hn hturn)
    exact ⟨move, hmove, hdefence⟩

theorem soundDefence_never_fails_turns :
    ∃ contest, ofNames turns .strong .weak "X" "Y" = .ok contest ∧
      contest.isBisimilar = true ∧
      ∀ attack history n,
        contest.arena.Play attack contest.soundDefences .root history n →
        contest.ranking.marking n = .zero ∧ ¬ contest.arena.IsStuck .defender n := by
  obtain ⟨hleft, hright, _⟩ := process?_turns
  obtain ⟨contest, hcontest, hkeeps⟩ :=
    soundDefence_ofNames_never_fails turns .strong .weak "X" "Y" _ _ hleft hright
  have heq := ofNames_eq_ok turns .strong .weak "X" "Y" _ _ hleft hright
  obtain rfl := Except.ok.inj (hcontest.symm.trans heq)
  obtain ⟨hroot, hplays⟩ := hkeeps (size_arena_turns_lt _ _ _ _)
  refine ⟨_, heq, isBisimilar_turns, fun attack history n hplay => ?_⟩
  obtain ⟨_, hzero, hfree, _⟩ := hplays .root (hroot isBisimilar_turns) attack history n hplay
  exact ⟨hzero, hfree⟩

end Contest

end BisimPlay
