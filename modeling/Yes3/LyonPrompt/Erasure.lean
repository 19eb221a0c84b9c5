import Yes3.LyonPrompt.BurnReplies
import Yes3.LyonPrompt.Endorsements

/-!
# Yes3.LyonPrompt.Erasure — how to get rid of a reply

One burn does not undo two replies, and the burn of a prompt leaves the lists of its
repliers as they are. So a reply may be noted more often than one burn takes away.
Here the burns are counted over whole runs, whatever other calls come between them
and however the calls nest.

* `ErasureInv` relates the world to one that was seen before.
* `erased_iff_burned_often` is the result: with no new reply, it takes as many burns
  as the prompt was in the list of the replier, and no fewer.
-/

namespace Yes3.LyonPrompt

open CallTree

/-- The number of the burns of the reply of `r` to `p`. -/
def burnsOf (p : Prompt) (r : Address) (calls : List Call) : ℕ :=
  calls.countP fun c => c.op = .burnReplies p r

/-- The call is no reply of `r` to `p`. -/
def NoReply (p : Prompt) (r : Address) (c : Call) (_ : World) : Prop :=
  c.reply p r = none

/-- The reply of `r` to `p` is noted nowhere. -/
def Erased (p : Prompt) (r : Address) (w : World) : Prop :=
  r ∉ (w.prompt p).keys ∧ p ∉ queryAllRepliesByAddress r w

/-- What has happened to the reply between `w₀` and `w`. -/
structure ErasureInv (p : Prompt) (r : Address) (w₀ w : World) : Prop where
  burns : burnsOf p r w₀.calls ≤ burnsOf p r w.calls
  listed : (w.promptByReplier r).count p + (burnsOf p r w.calls - burnsOf p r w₀.calls) =
    max ((w₀.promptByReplier r).count p) (burnsOf p r w.calls - burnsOf p r w₀.calls)
  record : burnsOf p r w₀.calls < burnsOf p r w.calls →
    (w.prompt p).replies r = ReplyInfo.blank

section Erasure

variable {p : Prompt} {r : Address} {w₀ w w' : World} {c : Call}

theorem burnsOf_snoc (p : Prompt) (r : Address) (calls : List Call) (c : Call) :
    burnsOf p r (calls ++ [c]) = burnsOf p r calls + if c.op = .burnReplies p r then 1 else 0 := by
  simp [burnsOf, List.countP_append, List.countP_singleton]

/-- A call of any kind but a reply keeps the account. -/
theorem ErasureInv.step (h : ErasureInv p r w₀ w) (hstep : Step w c w') (hc : NoReply p r c w) :
    ErasureInv p r w₀ w' := by
  have hburns := h.burns
  have hlisted := h.listed
  have hcalls := burnsOf_snoc p r w.calls c
  rcases c.op.reply_cases p r with ⟨detail, comment, signature, hop⟩ | hop | hspares
  · simp [NoReply, Call.reply, hop] at hc
  · -- one note less, if there was one
    rw [if_pos hop] at hcalls
    have hcount := hstep.count_replied p r
    simp only [hop, Op.tally, and_self, if_true] at hcount
    constructor
    case burns =>
      rw [hstep.calls_eq, hcalls]
      omega
    case listed =>
      rw [hstep.calls_eq, hcalls, hcount]
      omega
    case record =>
      intro _
      rw [hstep.replies_eq]
      simp [World.replyAfter, hop]
  · rw [if_neg hspares.2] at hcalls
    constructor
    case burns =>
      rw [hstep.calls_eq, hcalls]
      exact hburns
    case listed =>
      rw [hstep.calls_eq, hcalls, hstep.count_replied, hspares.tally]
      exact hlisted
    case record =>
      intro hlt
      rw [hstep.calls_eq, hcalls] at hlt
      rw [hstep.replies_eq, hspares.replyAfter]
      exact h.record hlt

theorem ReachableFrom.erasureInv (h : ReachableFrom (NoReply p r) w₀ w) : ErasureInv p r w₀ w := by
  refine ReachableFrom.induction (P := ErasureInv p r w₀) ?_ ?_ h
  · refine ⟨Nat.le_refl _, ?_, fun hlt => absurd hlt (Nat.lt_irrefl _)⟩
    simp
  · intro v c v' _ hi hg hs
    exact hi.step hs hg

/-- **It takes as many burns to erase a reply as it is noted.** From any observable
world on, if no call replies to the prompt for the replier again: each burn of the
reply takes the prompt out of the list of the replier once, while it is there; the
reply is erased, from the list and from the keys of the prompt, when there were as
many burns as the prompt was in the list, and not before; and its record is gone with
the first of them. What other calls come in between makes no difference. -/
theorem erased_iff_burned_often (h : Reachable w) (h' : ReachableFrom (NoReply p r) w w') :
    (queryAllRepliesByAddress r w').count p =
      (queryAllRepliesByAddress r w).count p - (burnsOf p r w'.calls - burnsOf p r w.calls) ∧
    (Erased p r w' ↔
      burnsOf p r w.calls + (queryAllRepliesByAddress r w).count p ≤ burnsOf p r w'.calls) ∧
    (burnsOf p r w.calls < burnsOf p r w'.calls → (w'.prompt p).replies r = ReplyInfo.blank) := by
  have hinv := h'.erasureInv
  have hburns := hinv.burns
  have hlisted := hinv.listed
  have hreach : Reachable w' := h.trans (h'.mono fun _ _ _ => trivial)
  have htallies := hreach.talliesAgree p r
  refine ⟨?_, ?_, hinv.record⟩
  · unfold queryAllRepliesByAddress
    omega
  · unfold Erased queryAllRepliesByAddress
    rw [← List.count_eq_zero, ← List.count_eq_zero]
    -- a key is in the list as well
    have hle := htallies.1
    constructor
    · rintro ⟨_, hnone⟩
      omega
    · intro hoften
      have hnone : (w'.promptByReplier r).count p = 0 := by omega
      exact ⟨by omega, hnone⟩

end Erasure

/-- Bob, who has replied twice, takes his replies back, and in between the prompt is
burned, which does not help. -/
def takeBackTxs : List Tx :=
  [callTx bob 4 (.burnReplies ⟨0, 1⟩ bob), callTx alice 5 (.burnPrompt ⟨0, 1⟩),
    callTx bob 6 (.burnReplies ⟨0, 1⟩ bob)]

theorem erased_iff_burned_often_twice :
    Erased ⟨0, 1⟩ bob (execAll dispatch takeBackTxs (worldAfter replyTwiceTxs)) ∧
    ¬ Erased ⟨0, 1⟩ bob (execAll dispatch (takeBackTxs.take 2) (worldAfter replyTwiceTxs)) := by
  have hreach := reachable_worldAfter replyTwiceTxs
  have hall : ReachableFrom (NoReply ⟨0, 1⟩ bob) (worldAfter replyTwiceTxs)
      (execAll dispatch takeBackTxs (worldAfter replyTwiceTxs)) :=
    ReachableBy.init.execAll
      ⟨meets_callTx rfl, meets_callTx rfl, meets_callTx rfl, trivial⟩
  have htwo : ReachableFrom (NoReply ⟨0, 1⟩ bob) (worldAfter replyTwiceTxs)
      (execAll dispatch (takeBackTxs.take 2) (worldAfter replyTwiceTxs)) :=
    ReachableBy.init.execAll ⟨meets_callTx rfl, meets_callTx rfl, trivial⟩
  rw [(erased_iff_burned_often hreach hall).2.1, (erased_iff_burned_often hreach htwo).2.1]
  decide +kernel

end Yes3.LyonPrompt
