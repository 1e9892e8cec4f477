import BisimPlay.Tournament.Basic

/-!
# Watching a game

A watcher follows the phase of a game. It knows how many publications it has seen, so
it can tell at each look whether there was another one since, even one of an equal
phase. Of a released game a watcher still sees the last phase, and that there will be
no other.
-/

namespace BisimPlay

/-- Someone who follows a game. -/
structure Watcher where
  game : GameId
  seen : Nat
deriving DecidableEq, Inhabited

/-- What has happened since the last look. -/
inductive News
  /-- No phase was published. -/
  | unchanged
  /-- A phase was published. -/
  | changed
  /-- The game was released. -/
  | closed
deriving DecidableEq, Inhabited

/-- What a watcher sees: the news and the phase. -/
structure Sight where
  news : News
  phase : Phase
deriving DecidableEq, Inhabited

namespace Tournament

/-- Begin to watch a game. Its current phase counts as seen. -/
def watch (t : Tournament) (g : GameId) : Option Watcher :=
  (t.game? g).map fun game => ⟨g, game.publications⟩

end Tournament

namespace Watcher

/-- Look at a game. What is seen then counts as seen. -/
def look (watcher : Watcher) (t : Tournament) : Option (Sight × Watcher) :=
  match t.games[watcher.game]? with
  | none => none
  | some (.released last) => some (⟨.closed, last⟩, watcher)
  | some (.held game) =>
    some (⟨if game.publications = watcher.seen then .unchanged else .changed, game.phase⟩,
      { watcher with seen := game.publications })

theorem news_look_look (watcher next after : Watcher) (t : Tournament)
    (first second : Sight) (h : watcher.look t = some (first, next))
    (h' : next.look t = some (second, after)) : second.news ≠ .changed := by
  cases hslot : t.games[watcher.game]? with
  | none => simp [look, hslot] at h
  | some slot =>
      cases slot with
      | released last =>
          simp only [look, hslot, Option.some.injEq, Prod.mk.injEq] at h
          rw [← h.2] at h'
          simp only [look, hslot, Option.some.injEq, Prod.mk.injEq] at h'
          simp [← h'.1]
      | held game =>
          simp only [look, hslot, Option.some.injEq, Prod.mk.injEq] at h
          rw [← h.2] at h'
          simp only [look, hslot, Option.some.injEq, Prod.mk.injEq] at h'
          simp [← h'.1]

end Watcher

end BisimPlay
