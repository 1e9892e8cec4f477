import BisimPlay.Proofs.CommandLine.Endings
import BisimPlay.Proofs.Contest.Automated
import BisimPlay.Proofs.Process.Listings
import BisimPlay.Proofs.Tournament.Duels

/-!
# What the command comes to

The command has two automated players play the game of a contest until it is over or its
round exceeds the limit. While neither is the case there is a decision to take, so the number
of decisions, two for each round, is never what ends the game. In a solved contest the way in
which the game ends agrees with the verdict, and an attacker that can win in time does so.
-/

namespace BisimPlay

namespace CommandLine

variable {maxRounds : UInt32} {game : Game}

variable {t : Tournament} {g : GameId}

theorem playOut_of_isOver (hgame : t.game? g = some game) (hover : game.phase.isOver = true)
    (n : Nat) : playOut g maxRounds n t = t := by
  cases n with
  | zero => rfl
  | succ n => simp [playOut, hgame, hover]

/-- What decisions keep of a game within the limit, playing out keeps. It goes on until the
game is over, or the limit is reached, or the number of decisions is used up; unless the game
is broken off, no notice of an error is given. -/
theorem playOut_invariant (hlimit : maxRounds.toNat < 0x80000000) {P : Game → Prop}
    (hdecides : ∀ game next, game.IsUnderWay maxRounds.toNat → P game →
      game.Decides next → P next)
    (hduel : t.IsDuel g) (hgame : t.game? g = some game)
    (hunderWay : game.IsUnderWay maxRounds.toNat) (hP : P game)
    (hcalm : t.IsCalm) (hrules : game.rules.NeverErrs) (n : Nat) :
    (playOut g maxRounds n t).IsDuel g ∧
      ∃ last, (playOut g maxRounds n t).game? g = some last ∧
        last.IsUnderWay maxRounds.toNat ∧ P last ∧
        (last.phase.isOver = true ∨
          last.record.plays.length = 2 * maxRounds.toNat ∨
          last.record.plays.length = game.record.plays.length + n) ∧
        ((∀ reason, last.phase ≠ .aborted reason) → (playOut g maxRounds n t).IsCalm) := by
  induction n generalizing t game with
  | zero => exact ⟨hduel, game, hgame, hunderWay, hP, .inr (.inr rfl), fun _ => hcalm⟩
  | succ n ih =>
      by_cases hstop : game.phase.isOver = true ∨ maxRounds < game.turn.round
      · have hplayed : playOut g maxRounds (n + 1) t = t := by simp [playOut, hgame, hstop]
        rw [hplayed]
        refine ⟨hduel, game, hgame, hunderWay, hP, hstop.imp id fun hround => .inl ?_,
          fun _ => hcalm⟩
        exact hunderWay.lt_toNat_round_iff.1 (UInt32.lt_iff_toNat_lt.1 hround)
      · obtain ⟨hopen, hround⟩ := not_or.1 hstop
        rw [UInt32.not_lt, UInt32.le_iff_toNat_le] at hround
        obtain ⟨role, hphase⟩ := hunderWay.exists_phase_eq (Bool.eq_false_iff.2 hopen)
        obtain ⟨⟨p, decision⟩, hnext⟩ := hduel.exists_next? hgame hunderWay.isCoherent
          hunderWay.stopped_eq hphase
        have hplayed : playOut g maxRounds (n + 1) t =
            playOut g maxRounds n (t.take p decision) := by
          simp [playOut, hgame, hstop, hnext]
        obtain ⟨hafter, next, hmade, htaken, hquiet⟩ :=
          hduel.take hgame (Tournament.decision?_of_next?_eq_some hnext)
        obtain ⟨hstill, hsame, hmore⟩ := hunderWay.decides hlimit hround hmade
        have hPnext := hdecides game next hunderWay hP hmade
        rw [hplayed]
        by_cases hover : next.phase.isOver = true
        · rw [playOut_of_isOver htaken hover]
          exact ⟨hafter, next, htaken, hstill, hPnext, .inl hover,
            fun hgoes => hquiet hgoes hrules hcalm⟩
        · have hgoes (reason : String) : next.phase ≠ .aborted reason := by
            intro haborted
            exact hover (by rw [haborted]; rfl)
          obtain ⟨hend, last, hlast, hunder, hPlast, hhow, hlastCalm⟩ :=
            ih hafter htaken hstill hPnext (hquiet hgoes hrules hcalm) (hsame ▸ hrules)
          refine ⟨hend, last, hlast, hunder, hPlast, ?_, hlastCalm⟩
          rwa [hmore.resolve_left hover, Nat.add_right_comm, Nat.add_assoc] at hhow

variable {contest : Contest} {attacker defender : Semantics}

theorem exists_game?_playOut (contest : Contest) (attacker defender : Semantics)
    (hlimit : maxRounds.toNat < 0x80000000) (echo : Bool) (delay : UInt64)
    (defence attack : RandomSource) {notices : Array Notice}
    (hnotices : ∀ notice ∈ notices, notice.severity ≠ .error) :
    let played := playOut 0 maxRounds (2 * maxRounds.toNat)
      (.started contest.rules echo delay defence attack notices)
    played.IsDuel 0 ∧ ∃ game, played.game? 0 = some game ∧ game.IsUnderWay maxRounds.toNat ∧
      (contest.IsSolved attacker defender → contest.IsGame game) ∧
      (game.phase.isOver = false → game.record.plays.length = 2 * maxRounds.toNat) ∧
      ((∀ reason, game.phase ≠ .aborted reason) → played.IsCalm) := by
  obtain ⟨game, hrules, hstopped, hattacker, hdefender, hgame⟩ :=
    Tournament.game?_started contest.rules echo delay defence attack notices
  have hcoherent : (game.fresh.handOver .attacker).1.IsCoherent :=
    game.isRecorded_fresh.handOver (by simp [Game.fresh, hattacker])
      (by simp [Game.fresh, hdefender]) (by simp [Game.fresh])
  have hplays : (game.fresh.handOver .attacker).1.record.plays = [] :=
    game.fresh.plays_handOver .attacker
  have hplay : contest.AutomatedPlay [] game.rules.root := by
    rw [hrules]
    exact .start
  have hfirst : contest.IsGame (game.fresh.handOver .attacker).1 :=
    Contest.isGame_handOver hrules hplay
  obtain ⟨hduel, last, hlast, hunder, hgood, hhow, hcalm⟩ :=
    playOut_invariant (P := fun game => contest.IsSolved attacker defender → contest.IsGame game)
      hlimit
      (fun game next hunder hgood hdecides hsolved => hsolved.isGame_of_decides
        (hgood hsolved) hunder.isCoherent hunder.stopped_eq hdecides)
      (Tournament.isDuel_started contest.rules echo delay defence attack notices) hgame
      (Game.isUnderWay_handOver hstopped hcoherent (Nat.zero_le _)) (fun _ => hfirst)
      (Tournament.isCalm_started contest.rules echo delay defence attack notices hnotices)
      (hfirst.rules_eq ▸ contest.neverErrs_rules) (2 * maxRounds.toNat)
  refine ⟨hduel, last, hlast, hunder, hgood, fun hopen => ?_, hcalm⟩
  rw [hplays, List.length_nil, Nat.zero_add, or_self] at hhow
  exact hhow.resolve_left (by simp [hopen])

theorem newGame_new (lts : TransitionSystem) (settings : Settings) (otherSeed : UInt64)
    (left right : String)
    (h : Contest.ofNames lts .strong settings.semantics left right = .ok contest) :
    ∃ session defence attack notices,
      (Session.new lts settings otherSeed).newGame left right = (.ok ⟨0, contest⟩, session) ∧
        session.current = some 0 ∧
        session.tournament = .started contest.rules settings.echo settings.thinkingDelay
          defence attack notices ∧
        ∀ notice ∈ notices, notice.severity ≠ .error := by
  have hcontest : (Session.new lts settings otherSeed).hide.contest left right = .ok contest := h
  unfold Session.newGame
  simp only [hcontest]
  refine ⟨_, _, _, #[(Session.new lts settings otherSeed).announcement left right contest], rfl,
    rfl, rfl, fun notice hnotice => ?_⟩
  rw [Array.mem_singleton.1 hnotice, Session.announcement]
  simp

theorem game?_hide {session : Session} (hcurrent : session.current = some g)
    (hlines : ∀ p, session.tournament.lines p = [])
    (hgame : session.tournament.game? g = some game) :
    session.hide.tournament.game? g = some { game with stopped := true } ∧
      (session.tournament.IsCalm → session.hide.tournament.IsCalm) := by
  have hstop : Call.stop.on game = .ok ({ game with stopped := true }, game.stop.2) := by
    rw [← game.stop_fst]
    rfl
  have hhide : session.hide.tournament = session.tournament.stop g := by
    unfold Session.hide
    rw [hcurrent]
  have hafter := Tournament.game?_changeBy hlines hgame hstop
  rw [hhide]
  refine ⟨hafter, fun hcalm => ?_⟩
  have hquiet := hcalm.changeBy hlines hgame hstop fun fault => by simp
  exact hquiet

theorem playGame_eq (options : Options) {session made : Session} {left right : String}
    {remarks : List Remark} (hnew : session.newGame left right = (.ok ⟨g, contest⟩, made))
    (hcurrent : made.current = some g) {played : Tournament}
    (hplayed : played = playOut g options.maxRounds (2 * options.maxRounds.toNat)
      made.tournament)
    (hlines : ∀ p, played.lines p = []) (hgame : played.game? g = some game) :
    (playGame options session left right remarks).exit = 0 ∧
      (playGame options session left right remarks).lines =
        verdictLine left right contest :: ending options.maxRounds game ∧
      ((∀ remark ∈ remarks, remark.notice.severity ≠ .error) → played.IsCalm →
        ∀ remark ∈ (playGame options session left right remarks).remarks,
          remark.notice.severity ≠ .error) := by
  obtain ⟨hhide, hquiet⟩ : (made.withTournament played).hide.tournament.game? g =
      some { game with stopped := true } ∧
        (played.IsCalm → (made.withTournament played).hide.tournament.IsCalm) :=
    game?_hide hcurrent hlines hgame
  simp only [playGame, hnew, ← hplayed, hhide]
  refine ⟨trivial, rfl, fun hremarks hcalm remark hremark => ?_⟩
  rcases List.mem_append.1 hremark with hbefore | hnotice
  · exact hremarks remark hbefore
  · obtain ⟨notice, hmem, rfl⟩ := List.mem_map.1 hnotice
    exact hquiet hcalm notice (Array.mem_toList_iff.1 hmem)

theorem severity_of_mem_stepRemarks {lts : TransitionSystem} {name : String}
    {reached : List Reached} {remark : Remark} (h : remark ∈ stepRemarks lts name reached) :
    remark.notice.severity = .debug := by
  obtain ⟨place, _, hplace⟩ := List.mem_flatMap.1 h
  obtain ⟨step, _, rfl⟩ := List.mem_map.1 hplace
  rfl

/-- A listing with both processes declared is reported on by playing their game. -/
theorem exists_reportOn_eq {options : Options} {otherSeed : UInt64} {listing : String}
    {lts : TransitionSystem} {left right : String} {p q : ProcessId}
    (hlisting : Listing.read listing = .ok lts)
    (hpair : pair options (.new lts options.settings otherSeed) = .ok (left, right))
    (hleft : lts.process? left = some p) (hright : lts.process? right = some q) :
    ∃ remarks, reportOn options otherSeed listing =
      playGame options (.new lts options.settings otherSeed) left right remarks ∧
        ∀ remark ∈ remarks, remark.notice.severity ≠ .error := by
  have hexplore {name : String} {r : ProcessId} (hname : lts.process? name = some r) :
      ∃ reached, (Session.new lts options.settings otherSeed).explore name = .ok reached := by
    have hresolve : (Session.new lts options.settings otherSeed).lts.resolve name = .ok r := by
      simp [Session.new, TransitionSystem.resolve, hname]
    exact ⟨_, by rw [Session.explore, hresolve]⟩
  obtain ⟨fromLeft, hfromLeft⟩ := hexplore hleft
  obtain ⟨fromRight, hfromRight⟩ := hexplore hright
  simp only [reportOn, hlisting, hpair, hfromLeft, hfromRight]
  refine ⟨_, rfl, fun remark hremark => ?_⟩
  rcases List.mem_append.1 hremark with hmem | hmem
  · simp [severity_of_mem_stepRemarks hmem]
  · simp [severity_of_mem_stepRemarks hmem]

theorem verdictLine_eq (left right : String) (contest : Contest) :
    verdictLine left right contest =
      left ++ " and " ++ right ++
        if contest.winner = .defender then " are bisimilar" else " are not bisimilar" := by
  rw [verdictLine, String.append_assoc, String.append_assoc]
  congr 1
  cases hverdict : contest.isBisimilar with
  | true => simp [contest.winner_eq_defender_iff.2 hverdict]
  | false => simp [contest.winner_eq_defender_iff, hverdict]

theorem finished_attacker_of_level (hsolved : contest.IsSolved attacker defender)
    (hgame : contest.IsGame game) (hunder : game.IsUnderWay maxRounds.toNat)
    (hfull : game.phase.isOver = false → game.record.plays.length = 2 * maxRounds.toNat)
    {k : Nat} (hk : k ≤ maxRounds.toNat)
    (hlevel : (contest.level .root).toNat = 2 * k) : game.phase = .finished .attacker := by
  have hroot : contest.level .root ≠ .infinity := by
    intro hinfinity
    rw [hinfinity, Level.toNat_infinity] at hlevel
    omega
  have hlength := hsolved.length_le_of_automatedPlay hgame.play hroot
  have hpos : 0 < (contest.level .root).toNat := hsolved.isExact.toNat_pos .root
  rw [List.length_map] at hlength
  cases hphase : game.phase with
  | finished winner =>
      have hwinner := hsolved.winner_eq_of_finished hgame hunder.isCoherent hphase
      have hloses : contest.winner ≠ .defender := by
        rwa [Ne, contest.winner_eq_defender_iff, contest.isBisimilar_iff]
      cases winner with
      | attacker => rfl
      | defender => exact absurd hwinner hloses
  | aborted reason => exact absurd hphase (hgame.ne_aborted reason)
  | unstarted => exact absurd hphase hunder.ne_unstarted
  | toMove role =>
      have hall := hfull (by rw [hphase]; rfl)
      omega

/-- The outcome of the game that the command has played agrees with the verdict. The game is
within the limit, a missing winner is reported when and only when the game is not over, and
then the limit is used up. As long as node numbers stay below the word that stands for
infinity, the game is not broken off and no error is remarked on, a role is seen to win only
when the verdict says so, and the attacker is seen to win when the level of the root leaves it
time. -/
theorem reportOn_agrees_with_verdict (options : Options) (otherSeed : UInt64)
    (listing : String) (lts : TransitionSystem) (left right : String) (p q : ProcessId)
    (hlisting : Listing.read listing = .ok lts)
    (hpair : pair options (.new lts options.settings otherSeed) = .ok (left, right))
    (hleft : lts.process? left = some p) (hright : lts.process? right = some q)
    (hlimit : options.maxRounds.toNat < 0x80000000) :
    ∃ contest session game shown,
      Contest.ofNames lts .strong options.settings.semantics left right = .ok contest ∧
      (Session.new lts options.settings otherSeed).newGame left right =
        (.ok ⟨0, contest⟩, session) ∧
      (playOut 0 options.maxRounds (2 * options.maxRounds.toNat) session.tournament).game? 0 =
        some game ∧
      (reportOn options otherSeed listing).exit = 0 ∧
      (reportOn options otherSeed listing).lines = verdictLine left right contest :: shown ∧
      shown = game.record.lines ++ endLine options.maxRounds game.phase ∧
      game.record.plays.length ≤ 2 * options.maxRounds.toNat ∧
      ("no winner after " ++ Decimal.render options.maxRounds.toNat ++ " rounds" ∈ shown ↔
        game.phase.isOver = false) ∧
      (game.phase.isOver = false →
        game.record.plays.length = 2 * options.maxRounds.toNat) ∧
      (contest.arena.size < 0xFFFFFFFF →
        (∀ reason, "game aborted: " ++ reason ∉ shown) ∧
        (∀ remark ∈ (reportOn options otherSeed listing).remarks,
          remark.notice.severity ≠ .error) ∧
        ("ATTACKER wins." ∈ shown →
          verdictLine left right contest = left ++ " and " ++ right ++ " are not bisimilar") ∧
        ("DEFENDER wins." ∈ shown →
          verdictLine left right contest = left ++ " and " ++ right ++ " are bisimilar") ∧
        (∀ k ≤ options.maxRounds.toNat, (contest.level .root).toNat = 2 * k →
          "ATTACKER wins." ∈ shown)) := by
  have hcontest := Contest.ofNames_eq_ok lts .strong options.settings.semantics left right p q
    hleft hright
  have hsolved := Contest.isSolved_ofProcesses lts .strong options.settings.semantics p q
  generalize Contest.ofProcesses lts .strong options.settings.semantics p q = contest
    at hcontest hsolved
  obtain ⟨remarks, hreport, hremarks⟩ := exists_reportOn_eq hlisting hpair hleft hright
  obtain ⟨session, defence, attack, notices, hnew, hcurrent, htournament, hnotices⟩ :=
    newGame_new lts options.settings otherSeed left right hcontest
  obtain ⟨hduel, game, hgame, hunder, hgood, hfull, hcalm⟩ :=
    exists_game?_playOut contest .strong options.settings.semantics hlimit
      options.settings.echo options.settings.thinkingDelay defence attack hnotices
  rw [← htournament] at hduel hgame hcalm
  obtain ⟨hexit, hlines, hquiet⟩ := playGame_eq options hnew hcurrent rfl hduel.lines_eq_nil hgame
  rw [← hreport] at hexit hlines hquiet
  refine ⟨contest, session, game, _, hcontest, hnew, hgame, hexit, hlines, rfl,
    hunder.length_le, noWinner_mem_iff options.maxRounds game, hfull, fun hsize => ?_⟩
  have hsound := hgood (hsolved hsize)
  have hattacker := wins_mem_iff hunder.isCoherent options.maxRounds .attacker
  have hdefender := wins_mem_iff hunder.isCoherent options.maxRounds .defender
  rw [show Role.attacker.text ++ " wins." = "ATTACKER wins." by decide +kernel] at hattacker
  rw [show Role.defender.text ++ " wins." = "DEFENDER wins." by decide +kernel] at hdefender
  refine ⟨fun reason hshown => ?_, hquiet hremarks (hcalm hsound.ne_aborted), fun hshown => ?_,
    fun hshown => ?_, fun k hk hlevel => ?_⟩
  · exact hsound.ne_aborted reason ((aborted_mem_iff options.maxRounds game reason).1 hshown)
  · rw [verdictLine_eq, (hsolved hsize).winner_eq_of_finished hsound hunder.isCoherent
      (hattacker.1 hshown), if_neg (by simp)]
  · rw [verdictLine_eq, (hsolved hsize).winner_eq_of_finished hsound hunder.isCoherent
      (hdefender.1 hshown), if_pos rfl]
  · exact hattacker.2
      (finished_attacker_of_level (hsolved hsize) hsound hunder hfull hk hlevel)

/-- Within two rounds the attacker shows the process that repeats an action to differ from one
that takes turns at it. -/
theorem reportOn_turns :
    ∃ (contest : Contest) (game : Game) (shown : List String),
      (reportOn ⟨"turns", some "X", some "Z", false, 0, some 7, 2⟩ 0
        "X a X\nY tau Y\nY a Z\nZ a Y\n").lines =
          "X and Z are not bisimilar" :: shown ∧
      shown = game.record.lines ++ endLine 2 game.phase ∧
      game.record.plays.length ≤ 4 ∧ (contest.level .root).toNat = 4 ∧
      "ATTACKER wins." ∈ shown ∧ ∀ reason, "game aborted: " ++ reason ∉ shown := by
  obtain ⟨hleft, _, hright⟩ := Contest.process?_turns
  have hlisting : Listing.read "X a X\nY tau Y\nY a Z\nZ a Y\n" = .ok Contest.turns := by
    rw [Listing.read_eq_ok_systemOf] <;> decide +kernel
  obtain ⟨contest, session, game, shown, hcontest, _, _, _, hlines, hshown, hlength, _, _,
    hagrees⟩ := reportOn_agrees_with_verdict ⟨"turns", some "X", some "Z", false, 0, some 7, 2⟩
      0 "X a X\nY tau Y\nY a Z\nZ a Y\n" Contest.turns "X" "Z" _ _ hlisting rfl hleft hright
      (by decide)
  have heq := Contest.ofNames_eq_ok Contest.turns .strong .strong "X" "Z" _ _ hleft hright
  obtain rfl := Except.ok.inj (hcontest.symm.trans heq)
  have hlevel : ((Contest.ofProcesses Contest.turns .strong .strong (.ofIndex 0)
      (.ofIndex 2)).level .root).toNat = 2 * 2 := by
    rw [Contest.level, Contest.ranking_ofProcesses]
    decide +kernel
  obtain ⟨hnever, _, hverdict, _, hwins⟩ := hagrees (Contest.size_arena_turns_lt _ _ _ _)
  have hattacker := hwins 2 (by decide) hlevel
  rw [hverdict hattacker, show "X" ++ " and " ++ "Z" ++ " are not bisimilar" =
    "X and Z are not bisimilar" by decide +kernel] at hlines
  exact ⟨_, game, shown, hlines, hshown, hlength, hlevel, hattacker, hnever⟩

end CommandLine

end BisimPlay
