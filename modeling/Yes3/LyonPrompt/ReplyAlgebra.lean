import Yes3.LyonPrompt.Tally

/-!
# Yes3.LyonPrompt.ReplyAlgebra — replies and their burns as operations

What the two reply operations are to each other, in any state at all.

* `burn_undoes_reply`: the burn takes back the reply before it, and leaves even
  the order of the arrays as it was.
* `reply_ops_commute`: operations on different pairs of a prompt and a replier
  commute, up to the order of the arrays. There the two orders of execution
  really differ, since a burn moves the last element of an array, so the arrays
  are compared by multiplicity.
-/

namespace Yes3.LyonPrompt

/-! ## Undoing a reply -/

/-- The storage after a reply and its burn. -/
theorem World.replyBurned_replied (msg : Msg) (p : Prompt) (r : Address)
    (detail comment signature : String) (w : World) :
    ((w.replied msg p r detail comment signature).replyBurned p r).toStorage =
      { w.toStorage with
        prompt := Function.update w.prompt p
          { w.prompt p with
            replies := Function.update (w.prompt p).replies r ReplyInfo.blank } } := by
  simp [DynArray.swapErase_append_singleton isKey_iff,
    DynArray.swapErase_append_singleton isPrompt_iff]

/-- **The burn undoes the reply.** The two arrays are as before, element for
element, and the record is blank. So the whole storage is as before if the record
was blank before, and otherwise it is not, whoever owns the slot. -/
theorem burn_undoes_reply (msg : Msg) (hadmin : msg.sender = ADMIN) (p : Prompt) (r : Address)
    (detail comment signature : String) (w : World) :
    ∃ w₁ w₂, replyPrompt msg p r detail comment signature w = .ok w₁ ∧
      burnReplies p r w₁ = .ok w₂ ∧
      (w₂.prompt p).keys = (w.prompt p).keys ∧
      w₂.promptByReplier r = w.promptByReplier r ∧
      (w₂.prompt p).replies r = ReplyInfo.blank ∧
      w₂.toStorage = { w.toStorage with
        prompt := Function.update w.prompt p
          { w.prompt p with
            replies := Function.update (w.prompt p).replies r ReplyInfo.blank } } ∧
      (w₂.toStorage = w.toStorage ↔ (w.prompt p).replies r = ReplyInfo.blank) := by
  have hreply := replyPrompt_ok_iff.mpr
    ⟨hadmin, (rfl : w.replied msg p r detail comment signature = _)⟩
  have hstorage := World.replyBurned_replied msg p r detail comment signature w
  have hrecord : (((w.replied msg p r detail comment signature).replyBurned p r).prompt p).replies
      r = ReplyInfo.blank := by
    simp
  refine ⟨_, _, hreply, burnReplies_eq p r _, ?_, ?_, hrecord, hstorage, ?_⟩
  · simp [DynArray.swapErase_append_singleton isKey_iff]
  · simp [DynArray.swapErase_append_singleton isPrompt_iff]
  · constructor
    · intro hsame
      have hprompt := congrArg (fun s : Storage => (s.prompt p).replies r) hsame
      exact hprompt.symm.trans hrecord
    · intro hblank
      rw [hstorage, ← hblank]
      simp

/-- Bob replies twice, Carol in between, and both his replies are noted. -/
def replyAroundTxs : List Tx :=
  mintAndReplyTxs ++ [callTx ADMIN 3 (.replyPrompt ⟨0, 1⟩ carol "b" "" ""),
    callTx ADMIN 4 (.replyPrompt ⟨0, 1⟩ bob "c" "" "")]

/-- A slot that was never minted is as before. Where Bob is a key twice already he keeps
his two places, but his record goes. In a burned slot he is no key any more, and the
record that the burn of the prompt had left in the mapping is gone as well. -/
theorem burn_undoes_reply_in_three_slots :
    (∃ w₁ w₂, replyPrompt ⟨ADMIN, 1⟩ ⟨0, 1⟩ bob "a" "" "" World.init = .ok w₁ ∧
      burnReplies ⟨0, 1⟩ bob w₁ = .ok w₂ ∧ w₂.toStorage = World.init.toStorage) ∧
    (∃ w₁ w₂, replyPrompt ⟨ADMIN, 5⟩ ⟨0, 1⟩ bob "d" "" "" (worldAfter replyAroundTxs) = .ok w₁ ∧
      burnReplies ⟨0, 1⟩ bob w₁ = .ok w₂ ∧ (w₂.prompt ⟨0, 1⟩).keys = [bob, carol, bob] ∧
      w₂.promptByReplier bob = [⟨0, 1⟩, ⟨0, 1⟩] ∧
      w₂.toStorage ≠ (worldAfter replyAroundTxs).toStorage) ∧
    ∃ w₁ w₂, replyPrompt ⟨ADMIN, 4⟩ ⟨0, 1⟩ bob "d" "" "" (worldAfter burnRepliedTxs) = .ok w₁ ∧
      burnReplies ⟨0, 1⟩ bob w₁ = .ok w₂ ∧ (w₂.prompt ⟨0, 1⟩).keys = [] ∧
      w₂.promptByReplier bob = [⟨0, 1⟩] ∧ (w₂.prompt ⟨0, 1⟩).replies bob = ReplyInfo.blank ∧
      ((worldAfter burnRepliedTxs).prompt ⟨0, 1⟩).replies bob = ⟨"a", "", "", 2⟩ ∧
      w₂.toStorage ≠ (worldAfter burnRepliedTxs).toStorage := by
  refine ⟨?_, ?_, ?_⟩
  · obtain ⟨w₁, w₂, hreply, hburn, _, _, _, _, hsame⟩ :=
      burn_undoes_reply ⟨ADMIN, 1⟩ rfl ⟨0, 1⟩ bob "a" "" "" World.init
    exact ⟨w₁, w₂, hreply, hburn, hsame.mpr rfl⟩
  · obtain ⟨w₁, w₂, hreply, hburn, hkeys, hreplied, _, _, hsame⟩ :=
      burn_undoes_reply ⟨ADMIN, 5⟩ rfl ⟨0, 1⟩ bob "d" "" "" (worldAfter replyAroundTxs)
    refine ⟨w₁, w₂, hreply, hburn, hkeys.trans ?_, hreplied.trans ?_, mt hsame.mp ?_⟩
    · decide +kernel
    · decide +kernel
    · decide +kernel
  · obtain ⟨w₁, w₂, hreply, hburn, hkeys, hreplied, hblank, _, hsame⟩ :=
      burn_undoes_reply ⟨ADMIN, 4⟩ rfl ⟨0, 1⟩ bob "d" "" "" (worldAfter burnRepliedTxs)
    have hleft : ((worldAfter burnRepliedTxs).prompt ⟨0, 1⟩).replies bob = ⟨"a", "", "", 2⟩ := by
      decide +kernel
    refine ⟨w₁, w₂, hreply, hburn, hkeys.trans ?_, hreplied.trans ?_, hblank, hleft,
      mt hsame.mp ?_⟩
    · decide +kernel
    · decide +kernel
    · rw [hleft]
      decide

/-! ## Commuting operations -/

/-- The call replies to `p` on behalf of `r`, which the admin does, or burns the reply. -/
def Call.RepliesFor (p : Prompt) (r : Address) (c : Call) : Prop :=
  match c.op with
  | .replyPrompt q s _ _ _ => q = p ∧ s = r ∧ c.msg.sender = ADMIN
  | .burnReplies q s => q = p ∧ s = r
  | _ => False

/-- The same storage, but for the order of the keys and of the lists of the repliers. -/
structure SameUpToOrder (s s' : Storage) : Prop where
  keys : ∀ p, (s.prompt p).keys.Perm (s'.prompt p).keys
  replied : ∀ r, (s.promptByReplier r).Perm (s'.promptByReplier r)
  /-- All of a slot but the keys, the records included. -/
  prompt : ∀ p, s.prompt p = { s'.prompt p with keys := (s.prompt p).keys }
  currentIndex : s.currentIndex = s'.currentIndex
  promptByOwner : s.promptByOwner = s'.promptByOwner

/-- All of a slot but the keys and the records. -/
def PromptInfo.unlisted (info : PromptInfo) : PromptInfo :=
  { info with keys := [], replies := fun _ => ReplyInfo.blank }

theorem PromptInfo.eq_of_unlisted {info info' : PromptInfo} (h : info.unlisted = info'.unlisted)
    (hreplies : info.replies = info'.replies) : info = { info' with keys := info.keys } := by
  cases info
  cases info'
  simp only [unlisted, PromptInfo.mk.injEq] at h hreplies ⊢
  simp [h, hreplies]

/-- What a call writes to a record depends on that record only. -/
theorem World.replyAfter_congr {w w' : World} {p : Prompt} {r : Address}
    (h : (w.prompt p).replies r = (w'.prompt p).replies r) (c : Call) :
    w.replyAfter c p r = w'.replyAfter c p r := by
  simp only [replyAfter, h]

section RepliesFor

variable {c c₁ c₂ : Call} {p p₁ p₂ : Prompt} {r r₁ r₂ : Address} {w w' : World}

/-- Such a call succeeds in every state. -/
theorem Call.RepliesFor.dispatch_ok (h : c.RepliesFor p r) (recv : Receiver) (w : World) :
    ∃ w', dispatch c recv id w = .ok w' := by
  rcases c with ⟨msg, op⟩
  cases op with
  | replyPrompt q s detail comment signature =>
      exact ⟨_, replyPrompt_ok_iff.mpr ⟨h.2.2, rfl⟩⟩
  | burnReplies q s => exact ⟨_, burnReplies_eq q s _⟩
  | safeMint t question context a uri => exact h.elim
  | burnPrompt q => exact h.elim
  | setTokenURI q uri => exact h.elim

/-- It spares every other pair. -/
theorem Call.RepliesFor.spares (h : c.RepliesFor p₁ r₁) (hne : ¬ (p = p₁ ∧ r = r₁)) :
    c.op.Spares p r := by
  rcases c.op.reply_cases p r with ⟨detail, comment, signature, hop⟩ | hop | hspares
  · rw [RepliesFor, hop] at h
    exact absurd ⟨h.1, h.2.1⟩ hne
  · rw [RepliesFor, hop] at h
    exact absurd h hne
  · exact hspares

theorem Call.RepliesFor.op_ne_burnPrompt (h : c.RepliesFor p r) (q : Prompt) :
    c.op ≠ .burnPrompt q := by
  intro hop
  rw [RepliesFor, hop] at h
  exact h

/-- What a reply operation leaves alone. -/
theorem Step.frame_of_repliesFor (hstep : Step w c w') (h : c.RepliesFor p r) :
    (∀ q, (w'.prompt q).unlisted = (w.prompt q).unlisted) ∧
    w'.currentIndex = w.currentIndex ∧ w'.promptByOwner = w.promptByOwner := by
  cases hstep with
  | replyPrompt _ => exact ⟨update_keeps PromptInfo.unlisted (by rfl), rfl, rfl⟩
  | burnReplies => exact ⟨update_keeps PromptInfo.unlisted (by rfl), rfl, rfl⟩
  | safeMint _ _ _ _ => exact h.elim
  | burnPrompt => exact h.elim
  | setTokenURI _ => exact h.elim

end RepliesFor

/-! ## Both orders

From here on `w` goes to `w₁₂` by `c₁` and then `c₂`, and to `w₂₁` by `c₂` and then `c₁`. -/

section Orders

variable {c₁ c₂ : Call} {p p₁ p₂ : Prompt} {r r₁ r₂ : Address} {w w₁ w₁₂ w₂ w₂₁ : World}

/-- Of two calls that are for different pairs, one spares the pair. -/
theorem spares_or_spares (h₁ : c₁.RepliesFor p₁ r₁) (h₂ : c₂.RepliesFor p₂ r₂)
    (hne : (p₁, r₁) ≠ (p₂, r₂)) (p : Prompt) (r : Address) :
    c₁.op.Spares p r ∨ c₂.op.Spares p r := by
  by_cases hpr : p = p₁ ∧ r = r₁
  · apply Or.inr
    apply h₂.spares
    rintro ⟨rfl, rfl⟩
    exact hne (by rw [hpr.1, hpr.2])
  · exact Or.inl (h₁.spares hpr)

/-- A pair that one of them spares is noted as often in either order. -/
theorem Op.Spares.tally_comm {op op' : Op} (h : op.Spares p r) (n : ℕ) :
    op'.tally p r (op.tally p r n) = op.tally p r (op'.tally p r n) := by
  rw [h.tally, h.tally]

theorem tally_comm (h₁ : c₁.RepliesFor p₁ r₁) (h₂ : c₂.RepliesFor p₂ r₂)
    (hne : (p₁, r₁) ≠ (p₂, r₂)) (p : Prompt) (r : Address) (n : ℕ) :
    c₂.op.tally p r (c₁.op.tally p r n) = c₁.op.tally p r (c₂.op.tally p r n) := by
  rcases spares_or_spares h₁ h₂ hne p r with hspares | hspares
  · exact hspares.tally_comm n
  · exact (hspares.tally_comm n).symm

/-- It has the same record in either order. -/
theorem replies_comm_of_spares (hs₁ : Step w c₁ w₁) (hs₁₂ : Step w₁ c₂ w₁₂) (hs₂ : Step w c₂ w₂)
    (hs₂₁ : Step w₂ c₁ w₂₁) (hspares : c₁.op.Spares p r) :
    (w₁₂.prompt p).replies r = (w₂₁.prompt p).replies r := by
  have hkept : (w₁.prompt p).replies r = (w.prompt p).replies r := by
    rw [hs₁.replies_eq, hspares.replyAfter]
  calc (w₁₂.prompt p).replies r
      = w₁.replyAfter c₂ p r := hs₁₂.replies_eq p r
    _ = w.replyAfter c₂ p r := World.replyAfter_congr hkept c₂
    _ = (w₂.prompt p).replies r := (hs₂.replies_eq p r).symm
    _ = w₂.replyAfter c₁ p r := (hspares.replyAfter w₂).symm
    _ = (w₂₁.prompt p).replies r := (hs₂₁.replies_eq p r).symm

theorem sameUpToOrder_of_steps (hs₁ : Step w c₁ w₁) (hs₁₂ : Step w₁ c₂ w₁₂) (hs₂ : Step w c₂ w₂)
    (hs₂₁ : Step w₂ c₁ w₂₁) (h₁ : c₁.RepliesFor p₁ r₁) (h₂ : c₂.RepliesFor p₂ r₂)
    (hne : (p₁, r₁) ≠ (p₂, r₂)) : SameUpToOrder w₁₂.toStorage w₂₁.toStorage := by
  obtain ⟨hrest₁, hindex₁, howner₁⟩ := hs₁.frame_of_repliesFor h₁
  obtain ⟨hrest₁₂, hindex₁₂, howner₁₂⟩ := hs₁₂.frame_of_repliesFor h₂
  obtain ⟨hrest₂, hindex₂, howner₂⟩ := hs₂.frame_of_repliesFor h₂
  obtain ⟨hrest₂₁, hindex₂₁, howner₂₁⟩ := hs₂₁.frame_of_repliesFor h₁
  constructor
  case keys =>
    intro p
    rw [List.perm_iff_count]
    intro r
    -- only the burn of a prompt does more to the keys than the tally says
    rw [hs₁₂.count_keys, if_neg (h₂.op_ne_burnPrompt p), hs₁.count_keys,
      if_neg (h₁.op_ne_burnPrompt p), hs₂₁.count_keys, if_neg (h₁.op_ne_burnPrompt p),
      hs₂.count_keys, if_neg (h₂.op_ne_burnPrompt p)]
    exact tally_comm h₁ h₂ hne p r _
  case replied =>
    intro r
    rw [List.perm_iff_count]
    intro p
    rw [hs₁₂.count_replied, hs₁.count_replied, hs₂₁.count_replied, hs₂.count_replied]
    exact tally_comm h₁ h₂ hne p r _
  case prompt =>
    intro p
    apply PromptInfo.eq_of_unlisted
    · rw [hrest₁₂, hrest₁, hrest₂₁, hrest₂]
    · funext r
      rcases spares_or_spares h₁ h₂ hne p r with hspares | hspares
      · exact replies_comm_of_spares hs₁ hs₁₂ hs₂ hs₂₁ hspares
      · exact (replies_comm_of_spares hs₂ hs₂₁ hs₁ hs₁₂ hspares).symm
  case currentIndex => rw [hindex₁₂, hindex₁, hindex₂₁, hindex₂]
  case promptByOwner => rw [howner₁₂, howner₁, howner₂₁, howner₂]

end Orders

/-- The view of a prompt does not depend on the order, but for the order. -/
theorem SameUpToOrder.shown {w w' : World} (h : SameUpToOrder w.toStorage w'.toStorage)
    (p : Prompt) : ∃ shown shown', queryAllRepliesByPrompt p w = .ok shown ∧
      queryAllRepliesByPrompt p w' = .ok shown' ∧ shown.Perm shown' := by
  have hreplies : (w.prompt p).replies = (w'.prompt p).replies := by
    rw [h.prompt p]
  refine ⟨_, _, queryAllRepliesByPrompt_eq p w, queryAllRepliesByPrompt_eq p w', ?_⟩
  rw [hreplies]
  exact (h.keys p).map _

/-- **Reply operations on different pairs commute.** Both orders succeed, and leave
the same storage up to the order of the arrays, which the views return. -/
theorem reply_ops_commute {c₁ c₂ : Call} {p₁ p₂ : Prompt} {r₁ r₂ : Address}
    (h₁ : c₁.RepliesFor p₁ r₁) (h₂ : c₂.RepliesFor p₂ r₂) (hne : (p₁, r₁) ≠ (p₂, r₂))
    (recv₁ recv₂ : Receiver) (w : World) :
    ∃ w₁ w₁₂ w₂ w₂₁, dispatch c₁ recv₁ id w = .ok w₁ ∧ dispatch c₂ recv₂ id w₁ = .ok w₁₂ ∧
      dispatch c₂ recv₂ id w = .ok w₂ ∧ dispatch c₁ recv₁ id w₂ = .ok w₂₁ ∧
      SameUpToOrder w₁₂.toStorage w₂₁.toStorage ∧
      (∀ p, ∃ shown shown', queryAllRepliesByPrompt p w₁₂ = .ok shown ∧
        queryAllRepliesByPrompt p w₂₁ = .ok shown' ∧ shown.Perm shown') ∧
      ∀ r, (queryAllRepliesByAddress r w₁₂).Perm (queryAllRepliesByAddress r w₂₁) := by
  obtain ⟨w₁, hx₁⟩ := h₁.dispatch_ok recv₁ w
  obtain ⟨w₁₂, hx₁₂⟩ := h₂.dispatch_ok recv₂ w₁
  obtain ⟨w₂, hx₂⟩ := h₂.dispatch_ok recv₂ w
  obtain ⟨w₂₁, hx₂₁⟩ := h₁.dispatch_ok recv₁ w₂
  have hsame : SameUpToOrder w₁₂.toStorage w₂₁.toStorage :=
    sameUpToOrder_of_steps (dispatch_step hx₁) (dispatch_step hx₁₂) (dispatch_step hx₂)
      (dispatch_step hx₂₁) h₁ h₂ hne
  exact ⟨w₁, w₁₂, w₂, w₂₁, hx₁, hx₁₂, hx₂, hx₂₁, hsame, hsame.shown, hsame.replied⟩

/-- A reply of Carol to a prompt. -/
def carolReplies : Call := ⟨⟨ADMIN, 5⟩, .replyPrompt ⟨0, 1⟩ carol "b" "" ""⟩

/-- The burn of Bob's reply to it. -/
def bobBurns : Call := ⟨⟨bob, 6⟩, .burnReplies ⟨0, 1⟩ bob⟩

theorem reply_ops_commute_same_prompt :
    ∃ w₁ w₁₂ w₂ w₂₁,
      dispatch carolReplies ⟨0, .undecodable⟩ id (worldAfter mintAndReplyTxs) = .ok w₁ ∧
      dispatch bobBurns ⟨0, .undecodable⟩ id w₁ = .ok w₁₂ ∧
      dispatch bobBurns ⟨0, .undecodable⟩ id (worldAfter mintAndReplyTxs) = .ok w₂ ∧
      dispatch carolReplies ⟨0, .undecodable⟩ id w₂ = .ok w₂₁ ∧
      SameUpToOrder w₁₂.toStorage w₂₁.toStorage := by
  have hcarol : carolReplies.RepliesFor ⟨0, 1⟩ carol := ⟨rfl, rfl, rfl⟩
  have hbob : bobBurns.RepliesFor ⟨0, 1⟩ bob := ⟨rfl, rfl⟩
  obtain ⟨w₁, w₁₂, w₂, w₂₁, hx₁, hx₁₂, hx₂, hx₂₁, hsame, _⟩ :=
    reply_ops_commute hcarol hbob (by decide) ⟨0, .undecodable⟩ ⟨0, .undecodable⟩
      (worldAfter mintAndReplyTxs)
  exact ⟨w₁, w₁₂, w₂, w₂₁, hx₁, hx₁₂, hx₂, hx₂₁, hsame⟩

end Yes3.LyonPrompt
