import BisimPlay.Tournament.Turns

/-!
# The clock of a tournament

Time is counted in milliseconds and moves only when it is told to. When it moves on,
every decision that falls due on the way is taken at its due time, in order of due
times, those that are scheduled meanwhile included.

A decision is for the game it was scheduled for, whatever has become of the turn
since. If the decision fails, or the move it comes to is refused, the game is broken
off.
-/

namespace BisimPlay

namespace Tournament

/-- The decisions that are pending, by player. -/
def pending (t : Tournament) : List (PlayerId × Decision) :=
  t.players.toList.zipIdx.filterMap fun (player, p) =>
    player.pending?.map fun decision => (p, decision)

/-- The decision of a list that falls due first; of several due at one time, the
first of the list. -/
def earliest : List (PlayerId × Decision) → Option (PlayerId × Decision)
  | [] => none
  | first :: rest =>
    match earliest rest with
    | none => some first
    | some best => if best.2.due < first.2.due then some best else some first

def next? (t : Tournament) : Option (PlayerId × Decision) := earliest t.pending

/-- Take a decision of a player at its due time. -/
def take (t : Tournament) (p : PlayerId) (decision : Decision) : Tournament :=
  let t := { t with now := decision.due }.modifyPlayer p Player.withoutDecision
  match t.game? decision.game, t.player? p with
  | some game, some ⟨role, _, .automated _ source _⟩ =>
    let verdict := game.rules.verdict game.turn.node role decision.choices source
    let t := verdict.notices.foldl tell (t.modifyPlayer p (·.withSource verdict.source))
    match verdict.move with
    | .error fault => t.abort decision.game fault
    | .ok move =>
      match t.play decision.game role move with
      | (.error fault, t) => t.abort decision.game fault
      | (.ok (), t) => t
  | _, _ => t

/-- Take the decisions that fall due up to a time; the number bounds them. -/
def settle (time : Nat) : Nat → Tournament → Tournament
  | 0, t => t
  | n + 1, t =>
    match t.next? with
    | none => t
    | some (p, decision) =>
      if decision.due ≤ time then settle time n (t.take p decision) else t

/-- How many decisions a player takes at one instant at most. Only players that need
no time to think take more than one, and a game cannot count more moves. -/
def decisionsPerInstant : Nat := 0x100000000

/-- Move the clock on by a number of milliseconds. A player that needs time to think
takes at most one decision at each instant. -/
def advance (t : Tournament) (duration : Nat) : Tournament :=
  let time := t.now + duration
  let bound := t.players.size * (duration + 1) * decisionsPerInstant
  { settle time bound t with now := time }

@[simp] theorem earliest_nil : earliest [] = none := rfl

theorem mem_of_earliest_eq_some {list : List (PlayerId × Decision)}
    {found : PlayerId × Decision} (h : earliest list = some found) : found ∈ list := by
  induction list generalizing found with
  | nil => simp at h
  | cons first rest ih =>
      unfold earliest at h
      cases hrest : earliest rest with
      | none =>
          rw [hrest] at h
          simp_all
      | some best =>
          rw [hrest] at h
          by_cases hlt : best.2.due < first.2.due
          · simp only [hlt, if_true, Option.some.injEq] at h
            subst h
            exact List.mem_cons_of_mem _ (ih hrest)
          · simp only [hlt, if_false, Option.some.injEq] at h
            simp [h]

@[simp] theorem now_advance (t : Tournament) (duration : Nat) :
    (t.advance duration).now = t.now + duration := rfl

theorem settle_of_next?_eq_none (time n : Nat) (t : Tournament)
    (h : t.next? = none) : settle time n t = t := by
  cases n with
  | zero => rfl
  | succ n => simp [settle, h]

end Tournament

end BisimPlay
