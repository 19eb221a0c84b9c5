import Yes3.LyonPrompt.Endorsements

/-!
# Yes3.LyonPrompt.ReplyIndex — the two indexes of the replies

The keys of a prompt and the lists of the repliers hold the same pairs, but for
the burns of prompts, which clear the keys only.

* `reply_indexes_agree`: no key is ever missing from its replier's list.
* `replied_index_recorded`: the converse, that an entry of a replier's list is a
  reply still on record, holds until a prompt with replies is burned, or a reply
  given more than once.
-/

namespace Yes3.LyonPrompt

open CallTree

/-! ## No key is missing from the index -/

/-- The two multiplicities of a reply: equal, but for burns of the prompt. -/
def TalliesAgree (p : Prompt) (r : Address) (w : World) : Prop :=
  (w.prompt p).keys.count r ≤ (w.promptByReplier r).count p ∧
  ((∀ c ∈ w.calls, c.op ≠ .burnPrompt p) →
    (w.prompt p).keys.count r = (w.promptByReplier r).count p)

theorem Step.talliesAgree {w w' : World} {c : Call} (hstep : Step w c w') {p : Prompt}
    {r : Address} (h : TalliesAgree p r w) : TalliesAgree p r w' := by
  rcases h with ⟨hle, heq⟩
  constructor
  · rw [hstep.count_keys, hstep.count_replied]
    split
    · exact Nat.zero_le _
    · exact Op.tally_mono p r c.op hle
  · intro hcalls
    rw [hstep.calls_eq] at hcalls
    have hc : c.op ≠ .burnPrompt p := hcalls c (by simp)
    have hbefore : (w.prompt p).keys.count r = (w.promptByReplier r).count p := by
      apply heq
      intro d hd
      exact hcalls d (List.mem_append_left _ hd)
    rw [hstep.count_keys, hstep.count_replied, if_neg hc, hbefore]

theorem Reachable.talliesAgree {w : World} (h : Reachable w) (p : Prompt) (r : Address) :
    TalliesAgree p r w := by
  refine ReachableFrom.induction (P := TalliesAgree p r) ?_ ?_ h
  · exact ⟨Nat.le_refl _, fun _ => rfl⟩
  · intro v c v' _ hi _ hs
    exact hs.talliesAgree hi

theorem TalliesAgree.listed {w : World} {p : Prompt} {r : Address} (h : TalliesAgree p r w)
    (hr : r ∈ (w.prompt p).keys) : p ∈ w.promptByReplier r := by
  have hpos : 0 < (w.prompt p).keys.count r := List.count_pos_iff.mpr hr
  exact List.count_pos_iff.mp (Nat.lt_of_lt_of_le hpos h.1)

/-- **The two reply indexes agree**, with multiplicities, as long as the prompt
is not burned; a burn takes from the keys only. So whoever is a key of a prompt
finds the prompt in his own list. -/
theorem reply_indexes_agree {w : World} (h : Reachable w) (p : Prompt) (r : Address) :
    (w.prompt p).keys.count r ≤ (queryAllRepliesByAddress r w).count p ∧
    ((∀ c ∈ w.calls, c.op ≠ .burnPrompt p) →
      (w.prompt p).keys.count r = (queryAllRepliesByAddress r w).count p) ∧
    (r ∈ (w.prompt p).keys → p ∈ queryAllRepliesByAddress r w) := by
  have htallies := h.talliesAgree p r
  exact ⟨htallies.1, htallies.2, htallies.listed⟩

/-- Two replies by the same replier, one of them burned. -/
def replyTwiceBurnOnceTxs : List Tx :=
  [callTx ADMIN 1 (.replyPrompt ⟨0, 1⟩ bob "a" "" ""),
    callTx ADMIN 2 (.replyPrompt ⟨0, 1⟩ bob "b" "" ""), callTx bob 3 (.burnReplies ⟨0, 1⟩ bob)]

theorem reply_indexes_agree_burned_once :
    ((worldAfter replyTwiceBurnOnceTxs).prompt ⟨0, 1⟩).keys.count bob =
      (queryAllRepliesByAddress bob (worldAfter replyTwiceBurnOnceTxs)).count ⟨0, 1⟩ :=
  (reply_indexes_agree (reachable_worldAfter replyTwiceBurnOnceTxs) ⟨0, 1⟩ bob).2.1
    (by decide +kernel)

/-! ## Entries whose reply is gone -/

/-- The replier's index as its view is meant to be read. -/
def RepliedIndexExact (w : World) : Prop :=
  ∀ r, ∀ p ∈ queryAllRepliesByAddress r w, ∃ info, ReplyRecorded p r info w

/-- The call burns no prompt that has replies. -/
def NoRepliedBurn (c : Call) (w : World) : Prop :=
  ∀ p, c.op = .burnPrompt p → (w.prompt p).keys = []

/-- The call burns no reply that was given more than once. -/
def NoRepeatedBurn (c : Call) (w : World) : Prop :=
  ∀ p r, c.op = .burnReplies p r → (w.prompt p).keys.count r ≤ 1

/-- The call burns neither. -/
def KeepsRecorded (c : Call) (w : World) : Prop :=
  NoRepliedBurn c w ∧ NoRepeatedBurn c w

/-- The keys and the lists of the repliers hold the same pairs, as often. -/
def TalliesEqual (w : World) : Prop :=
  ∀ p r, (w.prompt p).keys.count r = (w.promptByReplier r).count p

theorem Step.talliesEqual {w w' : World} {c : Call} (hstep : Step w c w')
    (hg : NoRepliedBurn c w) (h : TalliesEqual w) : TalliesEqual w' := by
  intro p r
  rw [hstep.count_keys, hstep.count_replied, ← h p r]
  split
  · -- the prompt that is burned had no key to lose
    rename_i hburn
    have hkeys : (w.prompt p).keys = [] := hg p hburn
    simp [hburn, hkeys, Op.tally]
  · rfl

/-- Every key endorses its prompt. -/
def KeysEndorse (w : World) : Prop :=
  ∀ p r, 0 < (w.prompt p).keys.count r → endorsement p r w.calls ≠ none

theorem Step.keysEndorse {w w' : World} {c : Call} (hstep : Step w c w')
    (hg : NoRepeatedBurn c w) (h : KeysEndorse w) : KeysEndorse w' := by
  intro p r hr
  rw [hstep.count_keys] at hr
  rw [hstep.calls_eq, endorsement_snoc]
  rcases c.op.reply_cases p r with ⟨detail, comment, signature, hop⟩ | hop | hspares
  · simp [Call.endorses, Call.reply, hop]
  · -- the reply was given once, so its only key goes
    have honce : (w.prompt p).keys.count r ≤ 1 := hg p r hop
    simp only [hop, Op.tally, and_self, if_true, reduceCtorEq, if_false] at hr
    omega
  · rw [hspares.tally] at hr
    rw [hspares.endorses]
    by_cases hburn : c.op = .burnPrompt p
    · simp [hburn] at hr
    · rw [if_neg hburn] at hr ⊢
      exact h p r hr

/-- **The replier's index is exact until a prompt with replies is burned, or a
reply given more than once.** In runs without such burns every entry is a reply
on record; the burns of prompts alone decide whether every entry has its key;
and each such burn leaves an entry whose reply is gone. -/
theorem replied_index_recorded (w : World) :
    (ReachableVia KeepsRecorded w → RepliedIndexExact w) ∧
    (ReachableVia NoRepliedBurn w →
      ∀ r, ∀ p ∈ queryAllRepliesByAddress r w, r ∈ (w.prompt p).keys) ∧
    (Reachable w → ∀ c recv w', dispatch c recv id w = .ok w' → ¬ KeepsRecorded c w →
      ¬ RepliedIndexExact w') := by
  have hkey : ReachableVia NoRepliedBurn w →
      ∀ r, ∀ p ∈ queryAllRepliesByAddress r w, r ∈ (w.prompt p).keys := by
    intro h r p hp
    have htallies : TalliesEqual w := by
      refine ReachableFrom.induction (P := TalliesEqual) ?_ ?_ h
      · intro p r
        rfl
      · intro v c v' _ hi hg hs
        exact hs.talliesEqual hg hi
    have hpos : 0 < (w.promptByReplier r).count p := List.count_pos_iff.mpr hp
    rw [← htallies p r] at hpos
    exact List.count_pos_iff.mp hpos
  refine ⟨?_, hkey, ?_⟩
  · intro h r p hp
    have hmem : r ∈ (w.prompt p).keys := hkey (h.mono fun _ _ hg => hg.1) r p hp
    have hendorse : KeysEndorse w := by
      refine ReachableFrom.induction (P := KeysEndorse) ?_ ?_ h
      · intro p r hpos
        cases hpos
      · intro v c v' _ hi hg hs
        exact hs.keysEndorse hg.2 hi
    obtain ⟨info, hinfo⟩ := Option.ne_none_iff_exists'.mp
      (hendorse p r (List.count_pos_iff.mpr hmem))
    exact ⟨info, h.reachable.endorsedInv.replyRecorded hinfo⟩
  · intro h c recv w' hx hviolated hexact
    have hstep := dispatch_step hx
    have h' : Reachable w' := ReachableBy.step h trivial hx
    rcases c with ⟨msg, op⟩
    rcases Classical.not_and_iff_not_or_not.mp hviolated with hburn | hburn
    · -- the keys are dropped, the entries of the repliers stay
      obtain ⟨p, rfl, hkeys⟩ : ∃ p, op = .burnPrompt p ∧ (w.prompt p).keys ≠ [] := by
        simpa [NoRepliedBurn] using hburn
      rcases List.exists_mem_of_ne_nil _ hkeys with ⟨r, hr⟩
      have hlisted : p ∈ w'.promptByReplier r := by
        rw [hstep.promptByReplier_eq]
        exact (h.talliesAgree p r).listed hr
      rcases hexact r p hlisted with ⟨info, hmem, _⟩
      rw [hstep.keys_eq] at hmem
      simp [World.keysAfter] at hmem
    · -- one entry and one key are left, and the record is gone
      obtain ⟨p, r, rfl, htwice⟩ : ∃ p r, op = .burnReplies p r ∧
          1 < (w.prompt p).keys.count r := by
        simpa [NoRepeatedBurn] using hburn
      have hleft : r ∈ (w'.prompt p).keys := by
        apply List.count_pos_iff.mp
        rw [hstep.count_keys]
        simp only [Op.tally, and_self, if_true]
        simp
        omega
      rcases hexact r p ((h'.talliesAgree p r).listed hleft) with ⟨info, _, hinfo, _⟩
      rw [hstep.endorsement_cleared (by simp [Call.endorses])] at hinfo
      cases hinfo

theorem replied_index_recorded_after_reply : RepliedIndexExact (worldAfter mintAndReplyTxs) :=
  (replied_index_recorded _).1 (reachableVia_worldAfter
    ⟨meets_callTx ⟨fun _ h => (nomatch h), fun _ _ h => (nomatch h)⟩,
      meets_callTx ⟨fun _ h => (nomatch h), fun _ _ h => (nomatch h)⟩, trivial⟩)

/-- After the burn Bob's list still has the prompt, which has no key and shows
no reply. -/
theorem replied_index_stale_after_burn :
    Reachable (worldAfter burnRepliedTxs) ∧
    queryAllRepliesByAddress bob (worldAfter burnRepliedTxs) = [⟨0, 1⟩] ∧
    ((worldAfter burnRepliedTxs).prompt ⟨0, 1⟩).keys = [] ∧
    ¬ ∀ w, Reachable w → RepliedIndexExact w := by
  have hreach := reachable_worldAfter burnRepliedTxs
  have hlist : queryAllRepliesByAddress bob (worldAfter burnRepliedTxs) = [⟨0, 1⟩] := by
    decide +kernel
  have hkeys : ((worldAfter burnRepliedTxs).prompt ⟨0, 1⟩).keys = [] := by
    decide +kernel
  refine ⟨hreach, hlist, hkeys, ?_⟩
  intro hexact
  rcases hexact _ hreach bob ⟨0, 1⟩ (by simp [hlist]) with ⟨info, hmem, _⟩
  rw [hkeys] at hmem
  cases hmem

end Yes3.LyonPrompt
