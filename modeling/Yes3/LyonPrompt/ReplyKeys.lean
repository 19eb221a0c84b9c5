import Mathlib.Data.Set.Card
import Yes3.LyonPrompt.ReplyIndex

/-!
# Yes3.LyonPrompt.ReplyKeys — the keys of a slot

Solidity mappings cannot be enumerated, so a slot keeps the keys of its
`replies` in an array. The array is right when it lists the repliers, each once,
and when only live prompts have any. `replyPrompt` pushes the key whether it is
there or not, and whether the prompt exists or not.

* `keys_exact_without_repeated_replies`: the keys enumerate the endorsements
  until a replier who is a key already replies again.
* `replies_only_on_live_prompts`: only live prompts have replies, until a reply
  is given to a slot without an owner.
-/

namespace Yes3.LyonPrompt

/-! ## One key per replier -/

/-- The keys as the view of the replies is meant to be read. -/
structure KeysExact (w : World) : Prop where
  /-- No replier is listed twice. -/
  distinct : ∀ p, (w.prompt p).keys.Nodup
  /-- The keys are the addresses that have a reply to the prompt. -/
  members : ∀ p r, r ∈ (w.prompt p).keys ↔ endorsement p r w.calls ≠ none
  /-- The view returns the current reply of every key. -/
  shown : ∀ p, queryAllRepliesByPrompt p w =
    .ok ((w.prompt p).keys.map fun r => (endorsement p r w.calls).getD ReplyInfo.blank)
  /-- It returns as many replies as there are addresses that have one. -/
  number : ∀ p shown, queryAllRepliesByPrompt p w = .ok shown →
    shown.length = Set.ncard {r | endorsement p r w.calls ≠ none}

/-- The call is no reply by the admin for a replier who is a key already. -/
def NoRepeatedReply (c : Call) (w : World) : Prop :=
  ∀ p r detail comment signature, c.op = .replyPrompt p r detail comment signature →
    c.msg.sender = ADMIN → r ∉ (w.prompt p).keys

/-- Every replier is listed once, everybody else not at all. -/
def KeyOnce (w : World) : Prop :=
  ∀ p r, (w.prompt p).keys.count r = (endorsement p r w.calls).isSome.toNat

theorem Step.keyOnce {w w' : World} {c : Call} (hstep : Step w c w')
    (hg : NoRepeatedReply c w) (h : KeyOnce w) : KeyOnce w' := by
  intro p r
  have hbefore := h p r
  rw [hstep.count_keys, hstep.calls_eq, endorsement_snoc]
  rcases c.op.reply_cases p r with ⟨detail, comment, signature, hop⟩ | hop | hspares
  · -- the first key of the replier
    have hnone : (w.prompt p).keys.count r = 0 :=
      List.count_eq_zero.mpr (hg p r detail comment signature hop (hstep.admin_of_reply hop))
    simp [Op.tally, Call.endorses, Call.reply, hop, hnone]
  · -- the only key of the replier goes
    have hle : (w.prompt p).keys.count r ≤ 1 := by
      rw [hbefore]
      exact Bool.toNat_le _
    simp only [hop, Op.tally, Call.endorses, and_self, if_true, reduceCtorEq, if_false,
      Option.getD_some, Option.isSome_none, Bool.toNat_false]
    omega
  · rw [hspares.tally, hspares.endorses]
    by_cases hburn : c.op = .burnPrompt p
    · simp [hburn]
    · rw [if_neg hburn, if_neg hburn]
      exact hbefore

/-- Keys that list every replier once are exact. -/
theorem EndorsedInv.keysExact {w : World} (hinv : EndorsedInv w) (h : KeyOnce w) :
    KeysExact w := by
  have hmembers : ∀ p r, r ∈ (w.prompt p).keys ↔ endorsement p r w.calls ≠ none := by
    intro p r
    rw [← List.count_pos_iff, h p r]
    cases endorsement p r w.calls with
    | none => simp
    | some info => simp
  have hdistinct : ∀ p, (w.prompt p).keys.Nodup := by
    intro p
    rw [List.nodup_iff_count_le_one]
    intro r
    rw [h p r]
    exact Bool.toNat_le _
  constructor
  case distinct => exact hdistinct
  case members => exact hmembers
  case shown =>
    intro p
    rw [queryAllRepliesByPrompt_eq]
    congr 1
    apply List.map_congr_left
    intro r hr
    exact (hinv.shown p r hr).2
  case number =>
    intro p shown hshown
    rw [queryAllRepliesByPrompt_eq] at hshown
    obtain rfl := Except.ok.inj hshown
    have hset : {r | endorsement p r w.calls ≠ none} = ↑(w.prompt p).keys.toFinset := by
      ext r
      simp only [Set.mem_ofPred_eq, List.coe_toFinset]
      exact (hmembers p r).symm
    rw [hset, Set.ncard_coe_finset, List.toFinset_card_of_nodup (hdistinct p), List.length_map]

/-- **The keys are exact until a replier replies again.** In runs in which the
admin gives no reply to a prompt for one of its keys, the keys enumerate the
endorsements; and every such reply that succeeds leaves a key that is listed twice. -/
theorem keys_exact_without_repeated_replies (w : World) :
    (ReachableVia NoRepeatedReply w → KeysExact w) ∧
    (Reachable w → ∀ c recv w', dispatch c recv id w = .ok w' → ¬ NoRepeatedReply c w →
      ¬ KeysExact w') := by
  constructor
  · intro h
    have honce : KeyOnce w := by
      refine ReachableFrom.induction (P := KeyOnce) ?_ ?_ h
      · intro p r
        rfl
      · intro v c v' _ hi hg hs
        exact hs.keyOnce hg hi
    exact h.reachable.endorsedInv.keysExact honce
  · intro _ c recv w' hx hviolated hexact
    have hstep := dispatch_step hx
    obtain ⟨p, r, detail, comment, signature, hop, _, hr⟩ :
        ∃ p r detail comment signature, c.op = .replyPrompt p r detail comment signature ∧
          c.msg.sender = ADMIN ∧ r ∈ (w.prompt p).keys := by
      simpa [NoRepeatedReply] using hviolated
    have hle : (w'.prompt p).keys.count r ≤ 1 :=
      List.nodup_iff_count_le_one.mp (hexact.distinct p) r
    have hpos : 0 < (w.prompt p).keys.count r := List.count_pos_iff.mpr hr
    rw [hstep.count_keys, hop] at hle
    simp only [Op.tally, and_self, if_true, reduceCtorEq, if_false] at hle
    omega

/-- A reply, its burn, and a new reply by the same replier. -/
def replyBurnReplyTxs : List Tx :=
  [callTx ADMIN 1 (.replyPrompt ⟨0, 1⟩ bob "a" "" ""), callTx bob 2 (.burnReplies ⟨0, 1⟩ bob),
    callTx ADMIN 3 (.replyPrompt ⟨0, 1⟩ bob "b" "" "")]

theorem keys_exact_reply_burn_reply : KeysExact (worldAfter replyBurnReplyTxs) :=
  (keys_exact_without_repeated_replies _).1 (reachableVia_worldAfter
    ⟨meets_callTx fun p r _ _ _ h _ => by
        rcases Op.replyPrompt.inj h with ⟨rfl, rfl, _⟩
        decide +kernel,
      meets_callTx fun _ _ _ _ _ h => (nomatch h),
      meets_callTx fun p r _ _ _ h _ => by
        rcases Op.replyPrompt.inj h with ⟨rfl, rfl, _⟩
        decide +kernel,
      trivial⟩)

/-- Bob replies twice to one prompt. -/
def replyTwiceTxs : List Tx :=
  mintAndReplyTxs ++ [callTx ADMIN 3 (.replyPrompt ⟨0, 1⟩ bob "b" "" "")]

/-- After the second reply Bob is listed twice, and the view returns his current
reply twice. -/
theorem keys_repeat_after_second_reply :
    Reachable (worldAfter replyTwiceTxs) ∧
    ((worldAfter replyTwiceTxs).prompt ⟨0, 1⟩).keys = [bob, bob] ∧
    queryAllRepliesByPrompt ⟨0, 1⟩ (worldAfter replyTwiceTxs) =
      .ok [⟨"b", "", "", 3⟩, ⟨"b", "", "", 3⟩] ∧
    ¬ ∀ w, Reachable w → KeysExact w := by
  have hreach := reachable_worldAfter replyTwiceTxs
  have hkeys : ((worldAfter replyTwiceTxs).prompt ⟨0, 1⟩).keys = [bob, bob] := by
    decide +kernel
  have hshown : queryAllRepliesByPrompt ⟨0, 1⟩ (worldAfter replyTwiceTxs) =
      .ok [⟨"b", "", "", 3⟩, ⟨"b", "", "", 3⟩] := by
    have hrecord : ((worldAfter replyTwiceTxs).prompt ⟨0, 1⟩).replies bob = ⟨"b", "", "", 3⟩ := by
      decide +kernel
    simp [queryAllRepliesByPrompt_eq, hkeys, hrecord]
  refine ⟨hreach, hkeys, hshown, ?_⟩
  intro hexact
  have hdistinct := (hexact _ hreach).distinct ⟨0, 1⟩
  simp [hkeys] at hdistinct

/-! ## Replies to prompts that do not exist -/

/-- Only live prompts have replies. -/
structure RepliesOnlyLive (w : World) : Prop where
  /-- A slot with keys has an owner. -/
  live : ∀ p, (w.prompt p).keys ≠ [] → (w.prompt p).promptOwner ≠ zeroAddress
  /-- A slot without an owner, such as a burned one, shows no replies. -/
  unowned : ∀ p, (w.prompt p).promptOwner = zeroAddress → queryAllRepliesByPrompt p w = .ok []
  /-- A prompt starts its life without replies. -/
  fresh : ∀ msg recv t question context a uri w',
    dispatch ⟨msg, .safeMint t question context a uri⟩ recv id w = .ok w' →
      queryAllRepliesByPrompt ⟨t, totalSupply t w'⟩ w' = .ok []

/-- The call is no reply by the admin to a slot without an owner. -/
def RepliesToLive (c : Call) (w : World) : Prop :=
  ∀ p r detail comment signature, c.op = .replyPrompt p r detail comment signature →
    c.msg.sender = ADMIN → (w.prompt p).promptOwner ≠ zeroAddress

/-- Slots without an owner have no keys. -/
def UnownedKeyless (w : World) : Prop :=
  ∀ p, (w.prompt p).promptOwner = zeroAddress → (w.prompt p).keys = []

theorem Step.unownedKeyless {w w' : World} {c : Call} (hstep : Step w c w')
    (hg : RepliesToLive c w) (h : UnownedKeyless w) : UnownedKeyless w' := by
  intro p hp
  rw [hstep.promptOwner_eq] at hp
  rw [hstep.keys_eq]
  rcases c with ⟨msg, op⟩
  cases op with
  | safeMint t question context a uri =>
      cases hstep with
      | safeMint rs hzero hmax hfree =>
          by_cases hpn : p = w.nextPrompt t
          · simp only [World.ownerAfter, hpn, if_true] at hp
            exact absurd hp hzero
          · simp only [World.ownerAfter, hpn, if_false] at hp
            exact h p hp
  | replyPrompt q r detail comment signature =>
      -- the slot that is replied to has an owner
      have hpq : p ≠ q := by
        intro hpq
        exact hg q r detail comment signature rfl (hstep.admin_of_reply rfl) (hpq ▸ hp)
      simpa [World.keysAfter, hpq] using h p hp
  | burnReplies q r =>
      have hkeys := h p hp
      by_cases hpq : p = q
      · subst hpq
        simp [World.keysAfter, hkeys, DynArray.swapErase]
      · simpa [World.keysAfter, hpq] using hkeys
  | burnPrompt q =>
      by_cases hpq : p = q
      · simp [World.keysAfter, hpq]
      · simp only [World.ownerAfter, hpq, if_false] at hp
        simpa [World.keysAfter, hpq] using h p hp
  | setTokenURI q uri => exact h p hp

/-- When unowned slots have no keys, neither has a slot that is minted. -/
theorem UnownedKeyless.repliesOnlyLive {w : World} (h : UnownedKeyless w) :
    RepliesOnlyLive w where
  live := fun p hkeys hzero => hkeys (h p hzero)
  unowned := fun p hzero => by simp [queryAllRepliesByPrompt_eq, h p hzero]
  fresh := by
    intro msg recv t question context a uri w' hx
    have hstep := dispatch_step hx
    have hkeys := hstep.keys_eq ⟨t, totalSupply t w'⟩
    cases hstep with
    | safeMint rs hzero hmax hfree =>
        have hnew := h (w.nextPrompt t) hfree
        simp only [totalSupply, World.minted, Function.update_self, World.nextPrompt] at hkeys hnew
        simp [queryAllRepliesByPrompt_eq, totalSupply, World.nextPrompt, hnew]

/-- **Replies attach to live prompts until a reply names a slot without an
owner.** In runs in which the admin gives no such reply no unowned slot has any, so
prompts start without replies and burned ones show none; and every such reply that
succeeds gives replies to a slot that is not live. -/
theorem replies_only_on_live_prompts (w : World) :
    (ReachableVia RepliesToLive w → RepliesOnlyLive w) ∧
    (Reachable w → ∀ c recv w', dispatch c recv id w = .ok w' → ¬ RepliesToLive c w →
      ¬ RepliesOnlyLive w') := by
  constructor
  · intro h
    have hkeyless : UnownedKeyless w := by
      refine ReachableFrom.induction (P := UnownedKeyless) ?_ ?_ h
      · intro p _
        rfl
      · intro v c v' _ hi hg hs
        exact hs.unownedKeyless hg hi
    exact hkeyless.repliesOnlyLive
  · intro _ c recv w' hx hviolated honly
    have hstep := dispatch_step hx
    obtain ⟨p, r, detail, comment, signature, hop, _, hp⟩ :
        ∃ p r detail comment signature, c.op = .replyPrompt p r detail comment signature ∧
          c.msg.sender = ADMIN ∧ (w.prompt p).promptOwner = zeroAddress := by
      simpa [RepliesToLive] using hviolated
    refine honly.live p ?_ ?_
    · rw [hstep.keys_eq, hop]
      simp [World.keysAfter]
    · rw [hstep.promptOwner_eq, hop]
      exact hp

theorem replies_only_on_live_after_reply : RepliesOnlyLive (worldAfter mintAndReplyTxs) :=
  (replies_only_on_live_prompts _).1 (reachableVia_worldAfter
    ⟨meets_callTx fun _ _ _ _ _ h => (nomatch h),
      meets_callTx fun p r _ _ _ h _ => by
        rcases Op.replyPrompt.inj h with ⟨rfl, rfl, _⟩
        decide +kernel,
      trivial⟩)

/-- A reply to a prompt that is minted afterwards. -/
def replyThenMintTxs : List Tx :=
  [callTx ADMIN 1 (.replyPrompt ⟨0, 1⟩ bob "a" "" ""),
    callTx alice 2 (.safeMint 0 "q" "c" alice "u")]

/-- The reply is accepted before the prompt exists, and shown under the fresh prompt. -/
theorem replies_before_mint :
    Reachable (worldAfter (replyThenMintTxs.take 1)) ∧
    ((worldAfter (replyThenMintTxs.take 1)).prompt ⟨0, 1⟩).promptOwner = zeroAddress ∧
    ((worldAfter (replyThenMintTxs.take 1)).prompt ⟨0, 1⟩).keys = [bob] ∧
    ((worldAfter replyThenMintTxs).prompt ⟨0, 1⟩).promptOwner = alice ∧
    ((worldAfter replyThenMintTxs).prompt ⟨0, 1⟩).keys = [bob] ∧
    ¬ ∀ w, Reachable w → RepliesOnlyLive w := by
  have hreach := reachable_worldAfter (replyThenMintTxs.take 1)
  have howner : ((worldAfter (replyThenMintTxs.take 1)).prompt ⟨0, 1⟩).promptOwner =
      zeroAddress := by
    decide +kernel
  have hkeys : ((worldAfter (replyThenMintTxs.take 1)).prompt ⟨0, 1⟩).keys = [bob] := by
    decide +kernel
  refine ⟨hreach, howner, hkeys, by decide +kernel, by decide +kernel, ?_⟩
  intro honly
  exact (honly _ hreach).live ⟨0, 1⟩ (by simp [hkeys]) howner

end Yes3.LyonPrompt
