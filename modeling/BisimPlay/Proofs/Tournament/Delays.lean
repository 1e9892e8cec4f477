import BisimPlay.Proofs.Tournament.Duels

/-!
# When decisions fall due

A decision falls due when its player has thought for its time, counted from the moment at which
the player was told to move. While a request is served the clock stands still, so whatever
becomes pending then is due that much later: this is what `AtOnce` says, of one call as of
everything that players do about it. When a decision is taken the clock stands at its due time,
and the same holds from there on.

If everybody takes some time to think, at most one decision of each player falls due at one
instant. So the bound on the decisions that are taken while time goes by is never reached, and
nothing is ever overdue.
-/

namespace BisimPlay

namespace Player

def delay? (player : Player) : Option UInt64 :=
  match player.conduct with
  | .automated delay _ _ => some delay
  | _ => none

variable (player : Player)

@[simp] theorem delay?_nature : player.nature.delay? = player.delay? := by
  cases h : player.conduct <;> simp [nature, delay?, Conduct.nature, h]

theorem pending?_told (now : Nat) (g : GameId) (choices : List Move) :
    (player.told now g choices).pending? =
      player.delay?.map fun delay => ⟨now + delay.toNat, g, choices⟩ := by
  cases h : player.conduct <;> simp [told, holding, pending?, delay?, h]

theorem exists_delay?_eq_some {decision : Decision} (h : player.pending? = some decision) :
    ∃ delay, player.delay? = some delay := by
  obtain ⟨delay, source, hconduct⟩ := player.exists_conduct_eq h
  exact ⟨delay, by rw [delay?, hconduct]⟩

end Player

namespace Tournament

variable {permit : Permit} {t s u : Tournament} {g : GameId} {p q : PlayerId}
  {decision other : Decision}

def delay? (t : Tournament) (p : PlayerId) : Option UInt64 := (t.player? p).bind Player.delay?

theorem delay?_of_nature? (h : s.nature? p = t.nature? p) : s.delay? p = t.delay? p := by
  have hbind (u : Tournament) : u.delay? p = (u.nature? p).bind Player.delay? := by
    rw [delay?, nature?]
    cases u.player? p <;> simp
  rw [hbind, hbind, h]

theorem exists_delay?_eq_some (h : t.decision? p = some decision) :
    ∃ delay, t.delay? p = some delay := by
  obtain ⟨player, hplayer, hpending⟩ := decision?_eq_some_iff.1 h
  obtain ⟨delay, hdelay⟩ := player.exists_delay?_eq_some hpending
  exact ⟨delay, by rw [delay?, hplayer, Option.bind_some, hdelay]⟩

theorem lt_size_of_decision?_eq_some (h : t.decision? p = some decision) :
    p < t.players.size := by
  obtain ⟨player, hplayer, _⟩ := decision?_eq_some_iff.1 h
  exact (Array.getElem?_eq_some_iff.1 hplayer).1

/-- One tournament comes from another without time going by: the clock and the times to think are
the same, and what is pending was pending before or will be due when its player has thought. -/
structure AtOnce (t s : Tournament) : Prop where
  now_eq : s.now = t.now
  delay?_eq : ∀ p, s.delay? p = t.delay? p
  due_cases : ∀ p decision, s.decision? p = some decision → t.decision? p = some decision ∨
    ∃ delay, t.delay? p = some delay ∧ decision.due = t.now + delay.toNat

namespace AtOnce

theorem of_decision? (hnow : s.now = t.now) (hnature : ∀ p, s.nature? p = t.nature? p)
    (hdecision : ∀ p decision, s.decision? p = some decision → t.decision? p = some decision) :
    t.AtOnce s where
  now_eq := hnow
  delay?_eq p := delay?_of_nature? (hnature p)
  due_cases p decision hpending := .inl (hdecision p decision hpending)

theorem refl (t : Tournament) : t.AtOnce t := of_decision? rfl (fun _ => rfl) fun _ _ => id

theorem trans (h : t.AtOnce s) (h' : s.AtOnce u) : t.AtOnce u where
  now_eq := h'.now_eq.trans h.now_eq
  delay?_eq p := (h'.delay?_eq p).trans (h.delay?_eq p)
  due_cases p decision hpending := by
    rcases h'.due_cases p decision hpending with hbefore | ⟨delay, hdelay, hdue⟩
    · exact h.due_cases p decision hbefore
    · exact .inr ⟨delay, (h.delay?_eq p).symm.trans hdelay, by rw [hdue, h.now_eq]⟩

theorem dismiss (t : Tournament) (p : PlayerId) : t.AtOnce (t.dismiss p) where
  now_eq := by
    unfold Tournament.dismiss
    split
    · rfl
    · split <;> rfl
  delay?_eq := fun q => delay?_of_nature? (nature?_heedAll t 0 [.dismiss p] q)
  due_cases q decision hpending := by
    rw [decision?_dismiss] at hpending
    exact .inl (Option.ite_none_left_eq_some.1 hpending).2

theorem notify (t : Tournament) (p : PlayerId) (g : GameId) (choices : List Move) :
    t.AtOnce (t.notify p g choices) where
  now_eq := by
    unfold Tournament.notify
    split
    · rfl
    · split <;> rfl
  delay?_eq := fun q => delay?_of_nature? (nature?_heedAll t g [.prompt p choices] q)
  due_cases q decision hpending := by
    rw [Tournament.decision?, player?_notify] at hpending
    split at hpending
    · obtain ⟨player, hplayer, htold⟩ := Option.bind_eq_some_iff.1 hpending
      obtain ⟨found, hfound, rfl⟩ := Option.map_eq_some_iff.1 hplayer
      rw [Player.pending?_told] at htold
      obtain ⟨delay, hdelay, rfl⟩ := Option.map_eq_some_iff.1 htold
      exact .inr ⟨delay, by rw [Tournament.delay?, hfound, Option.bind_some, hdelay], rfl⟩
    · exact .inl hpending

theorem heed (t : Tournament) (g : GameId) (effect : Effect) : t.AtOnce (t.heed g effect) := by
  cases effect with
  | tell notice => exact of_decision? rfl (fun _ => rfl) fun _ _ => id
  | dismiss p => exact .dismiss t p
  | prompt p choices => exact .notify t p g choices

theorem heedAll (t : Tournament) (g : GameId) (effects : List Effect) :
    t.AtOnce (t.heedAll g effects) := by
  induction effects generalizing t with
  | nil => exact .refl t
  | cons effect rest ih => exact (AtOnce.heed t g effect).trans (ih (t.heed g effect))

theorem holding (t : Tournament) (p : PlayerId) (choices : List Move) :
    t.AtOnce (t.modifyPlayer p (·.holding choices)) :=
  of_decision? rfl (t.nature?_holding p · choices) fun q decision hpending => by
    rwa [decision?_holding] at hpending

theorem setGame_heedAll (t : Tournament) (g : GameId) (next : Game) (effects : List Effect) :
    t.AtOnce ((t.setGame g next).heedAll g effects) :=
  trans (s := t.setGame g next) (of_decision? rfl (fun _ => rfl) fun _ _ => id)
    (.heedAll _ g effects)

end AtOnce

theorem Reaction.atOnce (h : Reaction permit t s) : t.AtOnce s := by
  cases h with
  | tell notice => exact .of_decision? rfl (fun _ => rfl) fun _ _ => id
  | note p event => exact .of_decision? rfl (fun _ => rfl) fun _ _ => id
  | call g call _ _ _ => exact .setGame_heedAll t g _ _

theorem Handling.atOnce (h : Handling permit t s) : t.AtOnce s := by
  cases h with
  | react hreaction => exact hreaction.atOnce
  | release g => exact .of_decision? rfl (fun _ => rfl) fun _ _ => id
  | letGo p g _ => exact .holding t p []
  | choose p g move _ _ _ _ _ => exact (AtOnce.holding t p []).trans (.setGame_heedAll _ g _ _)

theorem Handles.atOnce (h : Handles permit t s) : t.AtOnce s := by
  induction h with
  | refl => exact .refl t
  | tail _ hhandling ih => exact ih.trans hhandling.atOnce

/-- The due time of a decision has come, which its player no longer has pending. -/
def lapsed (t : Tournament) (p : PlayerId) (decision : Decision) : Tournament :=
  ({ t with now := decision.due }).modifyPlayer p Player.withoutDecision

theorem decision?_lapsed (t : Tournament) (p q : PlayerId) (decision : Decision) :
    (t.lapsed p decision).decision? q = if p = q then none else t.decision? q :=
  decision?_withoutDecision _ p q

theorem delay?_lapsed (t : Tournament) (p q : PlayerId) (decision : Decision) :
    (t.lapsed p decision).delay? q = t.delay? q :=
  delay?_of_nature? (nature?_modifyPlayer _ p q _ fun player => player.nature_withoutDecision)

theorem atOnce_heard (t : Tournament) (p : PlayerId) (decision : Decision)
    (source : RandomSource) (notices : List Notice) :
    (t.lapsed p decision).AtOnce (t.heard p decision source notices) := by
  refine .of_decision? ?_ (fun q => ?_) fun q other hpending => ?_
  · rw [heard, foldl_tell_eq]
    rfl
  · refine (nature?_heard t p q decision source notices).trans (Eq.symm ?_)
    exact nature?_modifyPlayer _ p q _ fun player => player.nature_withoutDecision
  · rwa [decision?_lapsed, ← decision?_heard t p q decision source notices]

theorem atOnce_take (hpending : t.decision? p = some decision) :
    (t.lapsed p decision).AtOnce (t.take p decision) := by
  rcases (isDiscipline_scriptsWithin anyCall).take_cases t.scriptsWithin_anyCall hpending with
    ⟨_, heq⟩ | ⟨player, game, next, effects, delay, source, verdict, _, _, _, _, _, hreacts⟩
  · rw [heq]
    exact .refl _
  · exact ((atOnce_heard t p decision _ _).trans (.setGame_heedAll _ _ next effects)).trans
      hreacts.handles.atOnce

theorem now_take (hpending : t.decision? p = some decision) :
    (t.take p decision).now = decision.due := (atOnce_take hpending).now_eq

/-- What is pending once a decision was taken was pending before, for another player, or its
player has thought since the decision was due. -/
theorem due_cases_take (hpending : t.decision? p = some decision)
    (hother : (t.take p decision).decision? q = some other) :
    (p ≠ q ∧ t.decision? q = some other) ∨
      ∃ delay, t.delay? q = some delay ∧ other.due = decision.due + delay.toNat := by
  rcases (atOnce_take hpending).due_cases q other hother with hbefore | ⟨delay, hdelay, hdue⟩
  · rw [decision?_lapsed] at hbefore
    exact .inl (Option.ite_none_left_eq_some.1 hbefore)
  · exact .inr ⟨delay, (delay?_lapsed t p q decision).symm.trans hdelay, hdue⟩

def TakesTime (t : Tournament) : Prop := ∀ p delay, t.delay? p = some delay → delay ≠ 0

/-- All that is pending is still to fall due. -/
def IsTimely (t : Tournament) : Prop :=
  ∀ p decision, t.decision? p = some decision → t.now < decision.due

theorem TakesTime.toNat_pos (h : t.TakesTime) {delay : UInt64} (hdelay : t.delay? p = some delay) :
    0 < delay.toNat :=
  Nat.pos_of_ne_zero fun hzero => h p delay hdelay (UInt64.toNat_inj.1 hzero)

theorem TakesTime.leads (h : t.TakesTime) (hleads : Leads permit t s) : s.TakesTime :=
  fun p delay hdelay => h p delay ((delay?_of_nature? (hleads.nature?_eq p)).symm.trans hdelay)

theorem AtOnce.takesTime (h : t.AtOnce s) (htime : t.TakesTime) : s.TakesTime :=
  fun p delay hdelay => htime p delay ((h.delay?_eq p).symm.trans hdelay)

theorem AtOnce.isTimely (h : t.AtOnce s) (htimely : t.IsTimely) (htime : t.TakesTime) :
    s.IsTimely := by
  intro p decision hpending
  rw [h.now_eq]
  rcases h.due_cases p decision hpending with hbefore | ⟨delay, hdelay, hdue⟩
  · exact htimely p decision hbefore
  · rw [hdue]
    exact Nat.lt_add_of_pos_right (htime.toNat_pos hdelay)

theorem due_le_of_earliest_eq_some {list : List (PlayerId × Decision)}
    {found member : PlayerId × Decision} (h : earliest list = some found) (hmem : member ∈ list) :
    found.2.due ≤ member.2.due := by
  induction list generalizing found with
  | nil => exact absurd hmem List.not_mem_nil
  | cons first rest ih =>
      unfold earliest at h
      cases hrest : earliest rest with
      | none =>
          rw [(earliest_eq_none_iff rest).1 hrest, List.mem_singleton] at hmem
          simp only [hrest, Option.some.injEq] at h
          rw [hmem, h]
      | some best =>
          simp only [hrest] at h
          split at h
          · next hlt =>
              obtain rfl := Option.some.inj h
              rcases List.mem_cons.1 hmem with rfl | hmem
              · exact Nat.le_of_lt hlt
              · exact ih hrest hmem
          · next hle =>
              obtain rfl := Option.some.inj h
              rcases List.mem_cons.1 hmem with rfl | hmem
              · exact Nat.le_refl _
              · exact Nat.le_trans (Nat.not_lt.1 hle) (ih hrest hmem)

theorem due_le_of_next?_eq_some (h : t.next? = some (p, decision))
    (hother : t.decision? q = some other) : decision.due ≤ other.due :=
  due_le_of_earliest_eq_some h ((t.mem_pending_iff q other).2 hother)

def dueBy (t : Tournament) (time : Nat) : Finset PlayerId :=
  (Finset.range t.players.size).filter fun p =>
    (t.decision? p).any (fun decision => decision.due ≤ time) = true

theorem mem_dueBy_iff {time : Nat} :
    p ∈ t.dueBy time ↔ ∃ decision, t.decision? p = some decision ∧ decision.due ≤ time := by
  rw [dueBy, Finset.mem_filter, Finset.mem_range, Option.any_eq_true]
  constructor
  · rintro ⟨_, decision, hpending, hdue⟩
    exact ⟨decision, hpending, of_decide_eq_true hdue⟩
  · rintro ⟨decision, hpending, hdue⟩
    exact ⟨lt_size_of_decision?_eq_some hpending, decision, hpending, decide_eq_true hdue⟩

theorem card_dueBy_le (t : Tournament) (time : Nat) : (t.dueBy time).card ≤ t.players.size :=
  (Finset.card_filter_le _ _).trans_eq (Finset.card_range _)

theorem dueBy_take_ssubset (htime : t.TakesTime) (hpending : t.decision? p = some decision) :
    (t.take p decision).dueBy decision.due ⊂ t.dueBy decision.due := by
  have hcases {q : PlayerId} (hq : q ∈ (t.take p decision).dueBy decision.due) :
      p ≠ q ∧ q ∈ t.dueBy decision.due := by
    obtain ⟨other, hother, hdue⟩ := mem_dueBy_iff.1 hq
    rcases due_cases_take hpending hother with ⟨hne, hbefore⟩ | ⟨delay, hdelay, hlater⟩
    · exact ⟨hne, mem_dueBy_iff.2 ⟨other, hbefore, hdue⟩⟩
    · have hpos := htime.toNat_pos hdelay
      omega
  refine (Finset.ssubset_iff_of_subset fun q hq => (hcases hq).2).2
    ⟨p, mem_dueBy_iff.2 ⟨decision, hpending, Nat.le_refl _⟩, fun hp => (hcases hp).1 rfl⟩

/-- As many decisions as there are players for every instant are enough to take all that falls due:
those at the first instant get fewer with each one that is taken, and nothing falls due
earlier. -/
theorem due_settle (htime : t.TakesTime) {first time n : Nat} (hle : first ≤ time)
    (hfirst : ∀ p decision, t.decision? p = some decision → first ≤ decision.due)
    (hn : t.players.size * (time - first) + (t.dueBy first).card ≤ n)
    (hpending : (settle time n t).decision? p = some decision) : time < decision.due := by
  induction n generalizing t first with
  | zero =>
      by_contra hdue
      have hp := lt_size_of_decision?_eq_some hpending
      have hstart := hfirst p decision hpending
      -- nothing is left of the time, so the decision is due at the first instant
      have hnow : time - first = 0 := by
        refine (Nat.mul_eq_zero.1 ?_).resolve_left (Nat.ne_of_gt (Nat.zero_lt_of_lt hp))
        exact Nat.le_zero.1 (Nat.le_trans (Nat.le_add_right _ _) hn)
      have hmem : p ∈ t.dueBy first := mem_dueBy_iff.2 ⟨decision, hpending, by omega⟩
      have hcard := Finset.card_pos.2 ⟨p, hmem⟩
      omega
  | succ n ih =>
      rw [settle] at hpending
      split at hpending
      · next hnone =>
          obtain ⟨found, hfound⟩ := exists_next?_eq_some hpending
          exact absurd (hnone.symm.trans hfound) (by simp)
      · next q next hnext =>
          have hnow := decision?_of_next?_eq_some hnext
          split at hpending
          · next hdue =>
              have hleads := leads_take t.scriptsWithin_anyCall hnow
              refine ih (htime.leads hleads) hdue (fun r later hlater => ?_) ?_ hpending
              · rcases due_cases_take hnow hlater with ⟨_, hbefore⟩ | ⟨delay, _, hthought⟩
                · exact due_le_of_next?_eq_some hnext hbefore
                · rw [hthought]
                  exact Nat.le_add_right _ _
              · have hfewer := Finset.card_lt_card (dueBy_take_ssubset htime hnow)
                have hall := t.card_dueBy_le next.due
                have hstart := hfirst q next hnow
                rw [hleads.size_players_eq]
                rcases Nat.eq_or_lt_of_le hstart with heq | hlt
                · rw [← heq] at hfewer ⊢
                  omega
                · -- a whole instant has gone by
                  have hinstant : t.players.size * (time - next.due) + t.players.size ≤
                      t.players.size * (time - first) := by
                    rw [← Nat.mul_succ]
                    exact Nat.mul_le_mul_left _ (by omega)
                  omega
          · next hdue =>
              exact Nat.lt_of_lt_of_le (Nat.not_le.1 hdue)
                (due_le_of_next?_eq_some hnext hpending)

theorem decision?_wait (t : Tournament) (time : Nat) (p : PlayerId) :
    ({ t with now := time } : Tournament).decision? p = t.decision? p := rfl

theorem IsTimely.advance (h : t.IsTimely) (htime : t.TakesTime) (duration : Nat) :
    (t.advance duration).IsTimely := by
  intro p decision hpending
  rw [now_advance]
  have hnone : t.dueBy t.now = ∅ := by
    refine Finset.eq_empty_of_forall_notMem fun q hq => ?_
    obtain ⟨other, hother, hdue⟩ := mem_dueBy_iff.1 hq
    exact absurd (h q other hother) (Nat.not_lt.2 hdue)
  refine due_settle htime (Nat.le_add_right t.now duration)
    (fun q other hother => Nat.le_of_lt (h q other hother)) ?_
    ((decision?_wait _ _ p).symm.trans hpending)
  rw [hnone, Finset.card_empty, Nat.add_zero, Nat.add_sub_cancel_left]
  calc t.players.size * duration
      ≤ t.players.size * (duration + 1) := Nat.mul_le_mul_left _ (Nat.le_succ _)
    _ ≤ t.players.size * (duration + 1) * decisionsPerInstant :=
        Nat.le_mul_of_pos_right _ (by decide)

theorem IsTimely.serve (h : t.IsTimely) (htime : t.TakesTime) {request : Request}
    (hrequest : t.Admits permit request) : (t.serve request).2.IsTimely := by
  have hadmits : t.Admits anyCall request := hrequest.mono fun _ _ _ => trivial
  have hhandles :=
    (isDiscipline_scriptsWithin anyCall).handles_serve t.scriptsWithin_anyCall hadmits
  cases request with
  | advance duration => exact h.advance htime duration
  | _ => exact (hhandles fun _ => Request.noConfusion).atOnce.isTimely h htime

theorem IsTimely.run (h : t.IsTimely) (htime : t.TakesTime) {requests : List Request}
    (hrequests : t.AdmitsAll permit requests) :
    (t.run requests).IsTimely ∧ (t.run requests).TakesTime := by
  induction requests generalizing t with
  | nil => exact ⟨h, htime⟩
  | cons request rest ih =>
      obtain ⟨hrequest, hrest⟩ := hrequests
      have hadmits : t.Admits anyCall request := hrequest.mono fun _ _ _ => trivial
      exact ih (h.serve htime hrequest) (htime.leads (leads_serve t.scriptsWithin_anyCall hadmits))
        hrest

end Tournament

end BisimPlay
