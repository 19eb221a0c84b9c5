import Mathlib.Data.Multiset.MapFold
import Yes3.Rules.Replay
import Yes3.LyonPrompt.ReplyIndex

/-!
# Yes3.LyonPrompt.ReplyBook — what the replies amount to

The replies as an abstract machine: a book with the repliers of every prompt, the
prompts that every account has replied to, and what was written last for a pair of
the two. There is no array in it: nothing has a position, so nothing has to be
searched for or moved.

* `ReplyBook.step` is the machine, `Step.replyBook` the refinement, one call at a time.
* `refines_replyBook` is the result for whole runs: in every observable world the views
  of the replies show, up to order, the book that the history leaves.
* `replies_confluent`: only the order of the calls for one and the same pair matters.
  Histories that differ in how the calls for different pairs are interleaved, or in
  calls that are no replies or burns, leave the same views.
-/

namespace Yes3.LyonPrompt

open CallTree Replay

/-! ## The machine -/

@[ext] structure ReplyBook where
  /-- The repliers of a prompt, each as often as it is noted. -/
  repliers : Prompt → Multiset Address := fun _ => 0
  /-- The prompts that an account has replied to, burned or not. -/
  repliedTo : Address → Multiset Prompt := fun _ => 0
  /-- What was written last for the pair. -/
  record : Prompt → Address → ReplyInfo := fun _ _ => ReplyInfo.blank

namespace ReplyBook

/-- What is written for a pair. -/
def write (p : Prompt) (r : Address) (info : ReplyInfo) (b : ReplyBook) :
    Prompt → Address → ReplyInfo :=
  Function.update b.record p (Function.update (b.record p) r info)

def enter (p : Prompt) (r : Address) (info : ReplyInfo) (b : ReplyBook) : ReplyBook where
  repliers := Function.update b.repliers p (r ::ₘ b.repliers p)
  repliedTo := Function.update b.repliedTo r (p ::ₘ b.repliedTo r)
  record := b.write p r info

/-- Strike one reply out, if there is one, and what was written in any case. -/
def strike (p : Prompt) (r : Address) (b : ReplyBook) : ReplyBook where
  repliers := Function.update b.repliers p ((b.repliers p).erase r)
  repliedTo := Function.update b.repliedTo r ((b.repliedTo r).erase p)
  record := b.write p r ReplyInfo.blank

/-- A prompt that is burned loses its repliers, who are not told. -/
def dismiss (p : Prompt) (b : ReplyBook) : ReplyBook :=
  { b with repliers := Function.update b.repliers p 0 }

/-- What the book does with a call, if it takes it. -/
def step (b : ReplyBook) (c : Call) : Option ReplyBook :=
  match c.op with
  | .replyPrompt p r detail comment signature =>
    if c.msg.sender = ADMIN then
      some (b.enter p r ⟨detail, comment, signature, c.msg.timestamp⟩)
    else none
  | .burnReplies p r => some (b.strike p r)
  | .burnPrompt p => some (b.dismiss p)
  | .safeMint .. => some b
  | .setTokenURI .. => some b

end ReplyBook

/-! ## What the contract shows of it -/

/-- The book that the storage encodes: the arrays, up to order. -/
def World.replyBook (w : World) : ReplyBook where
  repliers := fun p => (w.prompt p).keys
  repliedTo := fun r => w.promptByReplier r
  record := fun p => (w.prompt p).replies

/-- The views of the replies show the book. -/
structure ShowsReplies (w : World) (b : ReplyBook) : Prop where
  /-- The view of a prompt returns one record for every replier. -/
  byPrompt : ∀ p, ∃ shown, queryAllRepliesByPrompt p w = .ok shown ∧
    (shown : Multiset ReplyInfo) = (b.repliers p).map (b.record p)
  byAddress : ∀ r, (queryAllRepliesByAddress r w : Multiset Prompt) = b.repliedTo r

theorem showsReplies_replyBook (w : World) : ShowsReplies w w.replyBook where
  byPrompt := fun p => ⟨_, queryAllRepliesByPrompt_eq p w, rfl⟩
  byAddress := fun _ => rfl

/-! ## One call -/

/-- What is pushed to an array is one more element of it. -/
theorem coe_push {α : Type} (xs : List α) (x : α) :
    ((xs ++ [x] : List α) : Multiset α) = x ::ₘ (xs : Multiset α) :=
  Multiset.coe_eq_coe.mpr (List.perm_append_singleton x xs)

/-- What the loop of a burn takes out is one element less. -/
theorem coe_swapErase {α : Type} [DecidableEq α] {test : α → Bool} {x : α}
    (htest : ∀ a, test a ↔ a = x) (xs : List α) :
    (DynArray.swapErase test xs : Multiset α) = (xs : Multiset α).erase x :=
  Multiset.coe_eq_coe.mpr (DynArray.swapErase_perm_erase htest xs)

/-- A record that is written, pair by pair. -/
theorem World.write_replyBook (p : Prompt) (r : Address) (info : ReplyInfo) (w : World) :
    w.replyBook.write p r info =
      fun q s => if q = p ∧ s = r then info else (w.prompt q).replies s := by
  funext q s
  by_cases hq : q = p
  · subst hq
    by_cases hs : s = r <;> simp [ReplyBook.write, World.replyBook, hs]
  · simp [ReplyBook.write, World.replyBook, hq]

/-- **Refinement**: every call does to the arrays, up to order, what it does to the
book. The loops of the burns find what is to be erased wherever it is. -/
theorem Step.replyBook {w w' : World} {c : Call} (hstep : Step w c w') :
    w.replyBook.step c = some w'.replyBook := by
  have hrepliers : w'.replyBook.repliers = fun q => (w.keysAfter c.op q : Multiset Address) := by
    funext q
    exact congrArg _ (hstep.keys_eq q)
  have hrepliedTo : w'.replyBook.repliedTo =
      fun s => (w.repliedAfter c.op s : Multiset Prompt) := by
    funext s
    exact congrArg _ (hstep.promptByReplier_eq s)
  have hrecord : w'.replyBook.record = fun q s => w.replyAfter c q s := by
    funext q s
    exact hstep.replies_eq q s
  cases hstep with
  | @safeMint msg t question context a uri rs hzero hmax hfree =>
      exact congrArg some (ReplyBook.ext hrepliers.symm hrepliedTo.symm hrecord.symm)
  | @replyPrompt msg p r detail comment signature hadmin =>
      refine (if_pos hadmin).trans (congrArg some (ReplyBook.ext ?_ ?_ ?_))
      · rw [hrepliers]
        refine Function.update_eq_iff.mpr ⟨?_, fun q hq => ?_⟩
        · simp [World.keysAfter, World.replyBook, coe_push]
        · simp [World.keysAfter, World.replyBook, hq]
      · rw [hrepliedTo]
        refine Function.update_eq_iff.mpr ⟨?_, fun s hs => ?_⟩
        · simp [World.repliedAfter, World.replyBook, coe_push]
        · simp [World.repliedAfter, World.replyBook, hs]
      · rw [hrecord]
        exact World.write_replyBook p r _ w
  | @burnReplies msg p r =>
      refine congrArg some (ReplyBook.ext ?_ ?_ ?_)
      · rw [hrepliers]
        refine Function.update_eq_iff.mpr ⟨?_, fun q hq => ?_⟩
        · simp [World.keysAfter, World.replyBook, coe_swapErase isKey_iff]
        · simp [World.keysAfter, World.replyBook, hq]
      · rw [hrepliedTo]
        refine Function.update_eq_iff.mpr ⟨?_, fun s hs => ?_⟩
        · simp [World.repliedAfter, World.replyBook, coe_swapErase isPrompt_iff]
        · simp [World.repliedAfter, World.replyBook, hs]
      · rw [hrecord]
        exact World.write_replyBook p r _ w
  | @burnPrompt msg p =>
      refine congrArg some (ReplyBook.ext ?_ hrepliedTo.symm hrecord.symm)
      rw [hrepliers]
      refine Function.update_eq_iff.mpr ⟨?_, fun q hq => ?_⟩
      · simp [World.keysAfter]
      · simp [World.keysAfter, World.replyBook, hq]
  | @setTokenURI msg p uri howner =>
      exact congrArg some (ReplyBook.ext hrepliers.symm hrepliedTo.symm hrecord.symm)

/-! ## Whole runs -/

theorem replay_replyBook {w : World} (h : Reachable w) :
    replay ReplyBook.step {} w.calls = some w.replyBook := by
  refine replay_of_reachable effectsFirst World.calls World.replyBook rfl calls_of_dispatch ?_ h
  intro v c recv v' _ _ hx
  exact (dispatch_step hx).replyBook

/-- The call is about replies: it is no mint and no update of a URI. -/
def Op.Replies : Op → Prop
  | .replyPrompt .. => True
  | .burnReplies .. => True
  | .burnPrompt .. => True
  | .safeMint .. => False
  | .setTokenURI .. => False

/-- A call about replies is accepted exactly if the book takes it. -/
theorem dispatch_replies_succeeds_iff {c : Call} (hc : c.op.Replies) (recv : Receiver)
    (f : World → World) (w : World) :
    (∃ w', dispatch c recv f w = .ok w') ↔ ∃ b, w.replyBook.step c = some b := by
  rcases c with ⟨msg, op⟩
  cases op with
  | replyPrompt p r detail comment signature =>
      constructor
      · rintro ⟨w', h⟩
        exact ⟨_, if_pos (replyPrompt_ok_iff.mp h).1⟩
      · rintro ⟨b, hb⟩
        obtain ⟨hadmin, _⟩ := Option.ite_none_right_eq_some.mp hb
        exact ⟨_, replyPrompt_ok_iff.mpr ⟨hadmin, rfl⟩⟩
  | burnReplies p r => exact iff_of_true ⟨_, burnReplies_eq p r _⟩ ⟨_, rfl⟩
  | burnPrompt p => exact iff_of_true ⟨_, burnPrompt_eq p _⟩ ⟨_, rfl⟩
  | safeMint t question context a uri => exact hc.elim
  | setTokenURI p uri => exact hc.elim

/-- **The replies refine the book.** In every world that outside code can observe: the
history is a legal log of the book; the views of the replies show, up to order, the
book after it; and the next reply or burn is accepted exactly if the book takes it. -/
theorem refines_replyBook {w : World} (h : Reachable w) :
    ∃ b, replay ReplyBook.step {} w.calls = some b ∧ ShowsReplies w b ∧
      ∀ c recv f, c.op.Replies →
        ((∃ w', dispatch c recv f w = .ok w') ↔ ∃ b', b.step c = some b') := by
  refine ⟨w.replyBook, replay_replyBook h, showsReplies_replyBook w, ?_⟩
  intro c recv f hc
  exact dispatch_replies_succeeds_iff hc recv f w

theorem refines_replyBook_burned_once :
    ∃ b, replay ReplyBook.step {} (worldAfter replyTwiceBurnOnceTxs).calls = some b ∧
      b.repliers ⟨0, 1⟩ = {bob} ∧ b.record ⟨0, 1⟩ bob = ReplyInfo.blank := by
  obtain ⟨b, hb, _⟩ := refines_replyBook (reachable_worldAfter replyTwiceBurnOnceTxs)
  refine ⟨b, hb, ?_⟩
  have hcalls : (worldAfter replyTwiceBurnOnceTxs).calls =
      [⟨⟨ADMIN, 1⟩, .replyPrompt ⟨0, 1⟩ bob "a" "" ""⟩,
        ⟨⟨ADMIN, 2⟩, .replyPrompt ⟨0, 1⟩ bob "b" "" ""⟩, ⟨⟨bob, 3⟩, .burnReplies ⟨0, 1⟩ bob⟩] := by
    decide +kernel
  rw [hcalls] at hb
  obtain rfl := Option.some.inj hb
  decide +kernel

/-! ## The order of the calls -/

/-- The call is a reply of `r` to `p`, or the burn of one. -/
def Call.namesReply (p : Prompt) (r : Address) (c : Call) : Bool :=
  match c.op with
  | .replyPrompt q s _ _ _ => p = q ∧ r = s
  | .burnReplies q s => p = q ∧ r = s
  | _ => false

/-- The call is one of these, or burns the prompt. -/
def Call.namesPair (p : Prompt) (r : Address) (c : Call) : Bool :=
  c.namesReply p r || c.op = .burnPrompt p

/-- What the view of a prompt shows of one replier: how often, and what. -/
def World.shownOf (p : Prompt) (r : Address) (w : World) : ℕ × ReplyInfo :=
  ((w.prompt p).keys.count r, (w.prompt p).replies r)

/-- What a call does to it. -/
def Call.shownAfter (p : Prompt) (r : Address) (c : Call) (shown : ℕ × ReplyInfo) :
    ℕ × ReplyInfo :=
  (if c.op = .burnPrompt p then 0 else c.op.tally p r shown.1,
    (c.reply p r).getD (if c.op = .burnReplies p r then ReplyInfo.blank else shown.2))

section Order

variable {p : Prompt} {r : Address} {c : Call} {w w' v : World}

theorem Call.spares_of_namesReply (h : c.namesReply p r = false) : c.op.Spares p r := by
  rcases c.op.reply_cases p r with ⟨detail, comment, signature, hop⟩ | hop | hspares
  · simp [namesReply, hop] at h
  · simp [namesReply, hop] at h
  · exact hspares

/-- A call that spares the pair is no reply of it. -/
theorem Op.Spares.reply_eq_none (h : c.op.Spares p r) : c.reply p r = none := by
  rcases c with ⟨msg, op⟩
  cases op with
  | replyPrompt q s detail comment signature => exact if_neg h.ne_of_reply
  | burnReplies q s => rfl
  | safeMint t question context a uri => rfl
  | burnPrompt q => rfl
  | setTokenURI q uri => rfl

theorem Call.shownAfter_of_not_namesPair (h : c.namesPair p r = false)
    (shown : ℕ × ReplyInfo) : c.shownAfter p r shown = shown := by
  obtain ⟨hreply, hburn⟩ : c.namesReply p r = false ∧ c.op ≠ .burnPrompt p := by
    simpa [namesPair] using h
  have hspares := spares_of_namesReply hreply
  simp [shownAfter, hburn, hspares.tally, hspares.reply_eq_none, hspares.2]

theorem Step.shownOf_eq (hstep : Step w c w') (p : Prompt) (r : Address) :
    w'.shownOf p r = c.shownAfter p r (w.shownOf p r) := by
  refine Prod.ext (hstep.count_keys p r) ?_
  refine (hstep.replies_eq p r).trans ?_
  rcases c.op.reply_cases p r with ⟨detail, comment, signature, hop⟩ | hop | hspares
  · simp [World.replyAfter, Call.shownAfter, Call.reply, hop]
  · simp [World.replyAfter, Call.shownAfter, Call.reply, hop]
  · rw [hspares.replyAfter]
    simp [Call.shownAfter, World.shownOf, hspares.reply_eq_none, hspares.2]

/-- What is shown of a replier depends on the calls that name the pair only. -/
theorem shownOf_eq_of_calls (hw : Reachable w) (hv : Reachable v)
    (hcalls : w.calls.filter (Call.namesPair p r) = v.calls.filter (Call.namesPair p r)) :
    w.shownOf p r = v.shownOf p r := by
  refine view_eq_of_visible_eq effectsFirst World.calls (World.shownOf p r)
    (Call.shownAfter p r) rfl calls_of_dispatch ?_ ?_ hw hv hcalls
  · intro w c recv w' hx
    exact (dispatch_step hx).shownOf_eq p r
  · intro c hc shown
    exact Call.shownAfter_of_not_namesPair hc shown

/-- Whether a prompt is in the list of a replier, and how often, does not depend on the
burns of the prompt either. -/
theorem count_replied_eq_of_calls (hw : Reachable w) (hv : Reachable v)
    (hcalls : w.calls.filter (Call.namesReply p r) = v.calls.filter (Call.namesReply p r)) :
    (w.promptByReplier r).count p = (v.promptByReplier r).count p := by
  refine view_eq_of_visible_eq effectsFirst World.calls
    (fun w => (w.promptByReplier r).count p) (fun c n => c.op.tally p r n) rfl
    calls_of_dispatch ?_ ?_ hw hv hcalls
  · intro w c recv w' hx
    exact (dispatch_step hx).count_replied p r
  · intro c hc n
    exact (Call.spares_of_namesReply hc).tally n

/-- **Replies are confluent**: their views depend on the order of the calls for each
pair of a prompt and a replier, and on no other. Two observable worlds show the same
replies of a prompt, up to order, if for every replier their histories have the same
replies, burns of replies and burns of the prompt, in the same order, however the calls
of different repliers, of other prompts and all other calls are interleaved or nested;
and the same list of a replier, up to order, if for every prompt they have the same
replies and burns of replies, whatever prompts are burned. -/
theorem replies_confluent (hw : Reachable w) (hv : Reachable v) :
    (∀ p, (∀ r, w.calls.filter (Call.namesPair p r) = v.calls.filter (Call.namesPair p r)) →
      ∃ shown shown', queryAllRepliesByPrompt p w = .ok shown ∧
        queryAllRepliesByPrompt p v = .ok shown' ∧ shown.Perm shown') ∧
    (∀ r, (∀ p, w.calls.filter (Call.namesReply p r) = v.calls.filter (Call.namesReply p r)) →
      (queryAllRepliesByAddress r w).Perm (queryAllRepliesByAddress r v)) := by
  constructor
  · intro p hcalls
    have hshown : ∀ r, w.shownOf p r = v.shownOf p r := fun r =>
      shownOf_eq_of_calls hw hv (hcalls r)
    have hkeys : (w.prompt p).keys.Perm (v.prompt p).keys := by
      rw [List.perm_iff_count]
      intro r
      exact congrArg Prod.fst (hshown r)
    have hrecords : (w.prompt p).replies = (v.prompt p).replies := by
      funext r
      exact congrArg Prod.snd (hshown r)
    refine ⟨_, _, queryAllRepliesByPrompt_eq p w, queryAllRepliesByPrompt_eq p v, ?_⟩
    rw [hrecords]
    exact hkeys.map _
  · intro r hcalls
    unfold queryAllRepliesByAddress
    rw [List.perm_iff_count]
    intro p
    exact count_replied_eq_of_calls hw hv (hcalls p)

end Order

/-- Bob and Carol reply to a prompt that Alice has minted. -/
def repliesTxs : List Tx :=
  [callTx alice 1 (.safeMint 0 "q" "c" alice "u"),
    callTx ADMIN 2 (.replyPrompt ⟨0, 1⟩ bob "a" "" ""),
    callTx ADMIN 3 (.replyPrompt ⟨0, 1⟩ carol "b" "" "")]

/-- The same, the other way round, and Alice burns another prompt. -/
def repliesReversedTxs : List Tx :=
  repliesTxs.reverse ++ [callTx alice 4 (.burnPrompt ⟨0, 2⟩)]

theorem replies_confluent_reversed :
    ∃ shown shown', queryAllRepliesByPrompt ⟨0, 1⟩ (worldAfter repliesTxs) = .ok shown ∧
      queryAllRepliesByPrompt ⟨0, 1⟩ (worldAfter repliesReversedTxs) = .ok shown' ∧
      shown.Perm shown' := by
  have hcalls : (worldAfter repliesTxs).calls =
      [⟨⟨alice, 1⟩, .safeMint 0 "q" "c" alice "u"⟩,
        ⟨⟨ADMIN, 2⟩, .replyPrompt ⟨0, 1⟩ bob "a" "" ""⟩,
        ⟨⟨ADMIN, 3⟩, .replyPrompt ⟨0, 1⟩ carol "b" "" ""⟩] := by
    decide +kernel
  have hcalls' : (worldAfter repliesReversedTxs).calls =
      [⟨⟨ADMIN, 3⟩, .replyPrompt ⟨0, 1⟩ carol "b" "" ""⟩,
        ⟨⟨ADMIN, 2⟩, .replyPrompt ⟨0, 1⟩ bob "a" "" ""⟩,
        ⟨⟨alice, 1⟩, .safeMint 0 "q" "c" alice "u"⟩, ⟨⟨alice, 4⟩, .burnPrompt ⟨0, 2⟩⟩] := by
    decide +kernel
  refine (replies_confluent (reachable_worldAfter repliesTxs)
    (reachable_worldAfter repliesReversedTxs)).1 ⟨0, 1⟩ ?_
  intro r
  rw [hcalls, hcalls']
  -- one reply each names the pair of Bob and that of Carol, and none any other
  by_cases hb : r = bob
  · subst hb
    decide +kernel
  · by_cases hc : r = carol
    · subst hc
      decide +kernel
    · simp [Call.namesPair, Call.namesReply, hb, hc]

end Yes3.LyonPrompt
