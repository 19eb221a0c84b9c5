import Yes3.LyonPrompt.ReplyKeys

/-!
# Yes3.LyonPrompt.BurnReplies — what the burn of a reply takes away

`burnReplies` deletes the record of the replier and then searches two arrays,
the keys of the prompt and the list of the replier, for what it has to take out
of them. Each loop stops at its first match.

* `burnReplies_erases_one`: in any state the call succeeds, and takes one
  occurrence out of each array and nothing else out of anywhere.
* `burnReplies_complete`: so the reply is gone if it was noted once in each
  array, which holds until a replier replies again while the prompt is in his
  list.
-/

namespace Yes3.LyonPrompt

open CallTree

/-! ## One occurrence -/

/-- `w'` is `w` without one occurrence of the reply of `r` to `p`. -/
structure ErasesReply (p : Prompt) (r : Address) (w w' : World) : Prop where
  record : (w'.prompt p).replies r = ReplyInfo.blank
  keys : (w'.prompt p).keys.Perm ((w.prompt p).keys.erase r)
  listed : (w'.promptByReplier r).Perm ((w.promptByReplier r).erase p)
  /-- The records of the other repliers stay. -/
  otherRecords : ∀ s, s ≠ r → (w'.prompt p).replies s = (w.prompt p).replies s
  /-- So do the other fields of the prompt. -/
  otherFields : w'.prompt p =
    { w.prompt p with keys := (w'.prompt p).keys, replies := (w'.prompt p).replies }
  otherPrompts : ∀ q, q ≠ p → w'.prompt q = w.prompt q
  otherLists : ∀ s, s ≠ r → w'.promptByReplier s = w.promptByReplier s
  ownerLists : w'.promptByOwner = w.promptByOwner
  counters : w'.currentIndex = w.currentIndex

/-- **The burn of a reply erases one occurrence and nothing else**, whatever the
state is and however often the reply is noted in it. -/
theorem burnReplies_erases_one (p : Prompt) (r : Address) (w : World) :
    ∃ w', burnReplies p r w = .ok w' ∧ ErasesReply p r w w' := by
  refine ⟨_, burnReplies_eq p r w, ?_⟩
  constructor
  case record => simp
  case keys =>
    have hkeys : (DynArray.swapErase (isKey r) (w.prompt p).keys).Perm
        ((w.prompt p).keys.erase r) := DynArray.swapErase_perm_erase isKey_iff _
    simpa using hkeys
  case listed =>
    have hlist : (DynArray.swapErase (isPrompt p) (w.promptByReplier r)).Perm
        ((w.promptByReplier r).erase p) := DynArray.swapErase_perm_erase isPrompt_iff _
    simpa using hlist
  case otherRecords =>
    intro s hs
    simp [hs]
  case otherFields => simp
  case otherPrompts =>
    intro q hq
    simp [hq]
  case otherLists =>
    intro s hs
    simp [hs]
  case ownerLists => rfl
  case counters => rfl

/-! ## The whole reply -/

/-- The burn of the reply of `r` to `p` leaves nothing of it, shows no blank
record in its place, and has nothing left to do when it is repeated. -/
def BurnComplete (p : Prompt) (r : Address) (w : World) : Prop :=
  ∃ w' shown, burnReplies p r w = .ok w' ∧ r ∉ (w'.prompt p).keys ∧
    p ∉ queryAllRepliesByAddress r w' ∧ queryAllRepliesByPrompt p w' = .ok shown ∧
    (∀ info ∈ shown, info.createTime ≠ 0) ∧ burnReplies p r w' = .ok w'

/-- A reply that is noted nowhere is burned without a trace, once its record is blank. -/
theorem replyBurned_of_absent {p : Prompt} {r : Address} {w : World}
    (hrecord : (w.prompt p).replies r = ReplyInfo.blank) (hkey : r ∉ (w.prompt p).keys)
    (hlisted : p ∉ w.promptByReplier r) : w.replyBurned p r = w := by
  have hkeys : DynArray.swapErase (isKey r) (w.prompt p).keys = (w.prompt p).keys := by
    apply DynArray.swapErase_of_forall_not
    intro s hs hkey'
    exact hkey ((isKey_iff s).mp hkey' ▸ hs)
  have hlist : DynArray.swapErase (isPrompt p) (w.promptByReplier r) = w.promptByReplier r := by
    apply DynArray.swapErase_of_forall_not
    intro q hq hprompt
    exact hlisted ((isPrompt_iff q).mp hprompt ▸ hq)
  simp [hkeys, hlist, ← hrecord]

/-- The burn is complete when the reply is noted at most once in each array and
nobody else's key shows a blank record, and only then. -/
theorem burnComplete_iff {p : Prompt} {r : Address} {w : World} :
    BurnComplete p r w ↔
      (w.prompt p).keys.count r ≤ 1 ∧ (w.promptByReplier r).count p ≤ 1 ∧
      ∀ k ∈ (w.prompt p).keys, k ≠ r → ((w.prompt p).replies k).createTime ≠ 0 := by
  have hkeys : ((w.replyBurned p r).prompt p).keys.count r = (w.prompt p).keys.count r - 1 := by
    simp [DynArray.count_swapErase_self isKey_iff]
  have hlist : ((w.replyBurned p r).promptByReplier r).count p
      = (w.promptByReplier r).count p - 1 := by
    simp [DynArray.count_swapErase_self isPrompt_iff]
  -- the search takes nobody else's key out
  have hothers : ∀ k, k ≠ r →
      (k ∈ ((w.replyBurned p r).prompt p).keys ↔ k ∈ (w.prompt p).keys) := by
    intro k hk
    rw [← List.count_pos_iff, ← List.count_pos_iff]
    simp [DynArray.count_swapErase_of_ne isKey_iff hk]
  have hrecords : ∀ k, k ≠ r →
      ((w.replyBurned p r).prompt p).replies k = (w.prompt p).replies k := by
    intro k hk
    simp [hk]
  constructor
  · rintro ⟨w', shown, hburn, hkey, hlisted, hshown, hblank, _⟩
    obtain rfl := Except.ok.inj ((burnReplies_eq p r w).symm.trans hburn)
    rw [queryAllRepliesByPrompt_eq] at hshown
    obtain rfl := Except.ok.inj hshown
    rw [← List.count_eq_zero, hkeys] at hkey
    rw [queryAllRepliesByAddress, ← List.count_eq_zero, hlist] at hlisted
    refine ⟨by omega, by omega, ?_⟩
    intro k hmem hk
    rw [← hrecords k hk]
    exact hblank _ (List.mem_map_of_mem ((hothers k hk).mpr hmem))
  · rintro ⟨hkeyOnce, hlistedOnce, hblank⟩
    have hkey : r ∉ ((w.replyBurned p r).prompt p).keys := by
      rw [← List.count_eq_zero, hkeys]
      omega
    have hlisted : p ∉ (w.replyBurned p r).promptByReplier r := by
      rw [← List.count_eq_zero, hlist]
      omega
    refine ⟨_, _, burnReplies_eq p r w, hkey, hlisted, queryAllRepliesByPrompt_eq p _, ?_, ?_⟩
    · intro info hinfo
      rcases List.mem_map.mp hinfo with ⟨k, hmem, rfl⟩
      have hk : k ≠ r := fun hk => hkey (hk ▸ hmem)
      rw [hrecords k hk]
      exact hblank k ((hothers k hk).mp hmem) hk
    · -- the second burn finds nothing in either array
      rw [burnReplies_eq, replyBurned_of_absent (by simp) hkey hlisted]

/-! ## Runs in which no reply is noted twice -/

/-- The call is made after time zero, and is no reply by the admin to a prompt that
the list of the replier has already. -/
def FreshReply (c : Call) (w : World) : Prop :=
  0 < c.msg.timestamp ∧ ∀ p r detail comment signature,
    c.op = .replyPrompt p r detail comment signature → c.msg.sender = ADMIN →
      p ∉ w.promptByReplier r

/-- No reply is noted twice, and every key has a record. -/
structure NotedOnce (w : World) : Prop where
  listed : ∀ p r, (w.promptByReplier r).count p ≤ 1
  dated : ∀ p r, r ∈ (w.prompt p).keys → ((w.prompt p).replies r).createTime ≠ 0

/-- A fresh reply adds the only entry of the prompt to the list. -/
theorem Step.listed_once {w w' : World} {c : Call} (hstep : Step w c w') (hg : FreshReply c w)
    (h : NotedOnce w) (p : Prompt) (r : Address) : (w'.promptByReplier r).count p ≤ 1 := by
  have hbefore := h.listed p r
  rw [hstep.count_replied]
  rcases c.op.reply_cases p r with ⟨detail, comment, signature, hop⟩ | hop | hspares
  · have hnone : (w.promptByReplier r).count p = 0 :=
      List.count_eq_zero.mpr (hg.2 p r detail comment signature hop (hstep.admin_of_reply hop))
    simp [Op.tally, hop, hnone]
  · simp only [Op.tally, hop, and_self, if_true]
    omega
  · rw [hspares.tally]
    exact hbefore

/-- A reply dates its key, and the burn of a reply leaves no key without a date,
since there is one key at most. -/
theorem Step.dated {w w' : World} {c : Call} (hstep : Step w c w') (hg : FreshReply c w)
    (hkeys : ∀ p r, (w.prompt p).keys.count r ≤ 1) (h : NotedOnce w) (p : Prompt) (r : Address)
    (hr : r ∈ (w'.prompt p).keys) : ((w'.prompt p).replies r).createTime ≠ 0 := by
  obtain ⟨_, hpos⟩ := (hstep.mem_keys_iff p r).mp hr
  rw [hstep.replies_eq]
  rcases c.op.reply_cases p r with ⟨detail, comment, signature, hop⟩ | hop | hspares
  · have htime : c.msg.timestamp ≠ 0 := Nat.ne_of_gt hg.1
    simpa [World.replyAfter, hop] using htime
  · -- the only key would be gone
    have honce := hkeys p r
    simp only [Op.tally, hop, and_self, if_true] at hpos
    omega
  · rw [hspares.tally] at hpos
    rw [hspares.replyAfter]
    exact h.dated p r (List.count_pos_iff.mp hpos)

theorem ReachableVia.notedOnce {w : World} (h : ReachableVia FreshReply w) : NotedOnce w := by
  refine ReachableFrom.induction (P := NotedOnce) ?_ ?_ h
  · exact ⟨fun _ _ => Nat.zero_le 1, fun _ _ hr => absurd hr List.not_mem_nil⟩
  · intro v c v' hr hi hg hs
    have hkeys : ∀ p r, (v.prompt p).keys.count r ≤ 1 := by
      intro p r
      have htallies : TalliesAgree p r v := (ReachableVia.reachable hr).talliesAgree p r
      exact Nat.le_trans htallies.1 (hi.listed p r)
    exact ⟨hs.listed_once hg hi, hs.dated hg hkeys hi⟩

/-- **The burn of a reply is complete until a replier replies to a prompt that is
in his list.** In runs without such replies it is complete in every state; what a
state has to be like for it to be complete is known exactly; and right after each
such reply it is not. -/
theorem burnReplies_complete (w : World) :
    (ReachableVia FreshReply w → ∀ p r, BurnComplete p r w) ∧
    (∀ p r, BurnComplete p r w ↔
      (w.prompt p).keys.count r ≤ 1 ∧ (w.promptByReplier r).count p ≤ 1 ∧
      ∀ k ∈ (w.prompt p).keys, k ≠ r → ((w.prompt p).replies k).createTime ≠ 0) ∧
    (Reachable w → ∀ c recv w', dispatch c recv id w = .ok w' → 0 < c.msg.timestamp →
      ¬ FreshReply c w → ∃ p r, ¬ BurnComplete p r w') := by
  refine ⟨?_, fun p r => burnComplete_iff, ?_⟩
  · intro h p r
    have honce := h.notedOnce
    have htallies := h.reachable.talliesAgree p r
    refine burnComplete_iff.mpr ⟨Nat.le_trans htallies.1 (honce.listed p r),
      honce.listed p r, fun k hk _ => honce.dated p k hk⟩
  · intro _ c recv w' hx htime hviolated
    have hstep := dispatch_step hx
    obtain ⟨p, r, detail, comment, signature, hop, _, hlisted⟩ :
        ∃ p r detail comment signature, c.op = .replyPrompt p r detail comment signature ∧
          c.msg.sender = ADMIN ∧ p ∈ w.promptByReplier r := by
      simpa [FreshReply, htime] using hviolated
    refine ⟨p, r, ?_⟩
    intro hcomplete
    -- the prompt is in the list twice now, and a burn takes one of them out
    have honce := (burnComplete_iff.mp hcomplete).2.1
    have hpos : 0 < (w.promptByReplier r).count p := List.count_pos_iff.mpr hlisted
    rw [hstep.count_replied, hop] at honce
    simp only [Op.tally, and_self, if_true] at honce
    omega

theorem burnReplies_complete_after_reply :
    BurnComplete ⟨0, 1⟩ bob (worldAfter mintAndReplyTxs) :=
  (burnReplies_complete (worldAfter mintAndReplyTxs)).1 (reachableVia_worldAfter
    ⟨meets_callTx ⟨by decide, fun _ _ _ _ _ h => (nomatch h)⟩,
      meets_callTx ⟨by decide, fun p r _ _ _ h _ => by
        rcases Op.replyPrompt.inj h with ⟨rfl, rfl, _⟩
        decide +kernel⟩,
      trivial⟩) ⟨0, 1⟩ bob

/-- Bob has replied twice. One burn leaves a key of his, which shows a blank
record, and an entry in his list. -/
theorem burnReplies_leaves_second_reply :
    ReachableVia (fun c _ => 0 < c.msg.timestamp) (worldAfter replyTwiceTxs) ∧
    (∃ w', burnReplies ⟨0, 1⟩ bob (worldAfter replyTwiceTxs) = .ok w' ∧
      (w'.prompt ⟨0, 1⟩).keys = [bob] ∧ queryAllRepliesByAddress bob w' = [⟨0, 1⟩] ∧
      queryAllRepliesByPrompt ⟨0, 1⟩ w' = .ok [ReplyInfo.blank]) ∧
    ¬ ∀ w, ReachableVia (fun c _ => 0 < c.msg.timestamp) w → ∀ p r, BurnComplete p r w := by
  have hreach : ReachableVia (fun c _ => 0 < c.msg.timestamp) (worldAfter replyTwiceTxs) :=
    reachableVia_worldAfter
      ⟨meets_callTx (by decide), meets_callTx (by decide), meets_callTx (by decide), trivial⟩
  refine ⟨hreach, ⟨_, burnReplies_eq _ _ _, ?_, ?_, ?_⟩, ?_⟩
  · decide +kernel
  · decide +kernel
  · have hkeys : (((worldAfter replyTwiceTxs).replyBurned ⟨0, 1⟩ bob).prompt ⟨0, 1⟩).keys
        = [bob] := by
      decide +kernel
    rw [queryAllRepliesByPrompt_eq, hkeys]
    simp
  · intro hcomplete
    have honce := (burnComplete_iff.mp (hcomplete _ hreach ⟨0, 1⟩ bob)).1
    revert honce
    decide +kernel

end Yes3.LyonPrompt
