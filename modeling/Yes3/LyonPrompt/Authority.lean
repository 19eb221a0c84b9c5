import Yes3.LyonPrompt.Endorsements

/-!
# Yes3.LyonPrompt.Authority — who may destroy what

A prompt belongs to its owner, and a reply to its replier and to the owner of
the prompt. `Untouched` says that a call leaves alone what does not belong to
its sender. `setTokenURI` asks for the owner and `replyPrompt` for the
administrator, but the two burns ask for nobody.

* `Entitled` is the check that the burns lack.
* `untouched_iff_entitled`: a call of anybody but the administrator leaves alone
  what belongs to others exactly if its sender is entitled to it. So while
  strangers make entitled calls only, a prompt and its replies stay.
-/

namespace Yes3.LyonPrompt

open CallTree

/-- What a call by `sender` may not touch: the live prompts of others, and the
replies of others to prompts that are not the sender's. -/
structure Untouched (sender : Address) (w w' : World) : Prop where
  /-- The prompt keeps its owner, question, context, URI and creation time. -/
  prompts : ∀ p, (w.prompt p).promptOwner ≠ zeroAddress → (w.prompt p).promptOwner ≠ sender →
    queryPromptInfoById p w' = queryPromptInfoById p w
  /-- The reply stays on record, and the view still returns it. -/
  replies : ∀ p r info, (w.prompt p).promptOwner ≠ sender → r ≠ sender →
    ReplyRecorded p r info w → ReplyRecorded p r info w'

/-- The sender of a burn owns the prompt, or gave the reply that is burned; or
the burn destroys nothing of anybody else. -/
def Entitled (c : Call) (w : World) : Prop :=
  match c.op with
  | .burnPrompt p => (w.prompt p).promptOwner = c.msg.sender ∨
      ((w.prompt p).promptOwner = zeroAddress ∧
        ∀ r, r ≠ c.msg.sender → endorsement p r w.calls = none)
  | .burnReplies p r => (w.prompt p).promptOwner = c.msg.sender ∨ r = c.msg.sender ∨
      endorsement p r w.calls = none
  | _ => True

variable {w w' : World} {c : Call}

/-! ## Entitled calls -/

/-- An entitled call leaves the live prompts of others as they are. -/
theorem Step.prompts_untouched (hstep : Step w c w') (hentitled : Entitled c w) {p : Prompt}
    (hlive : (w.prompt p).promptOwner ≠ zeroAddress)
    (hother : (w.prompt p).promptOwner ≠ c.msg.sender) :
    queryPromptInfoById p w' = queryPromptInfoById p w := by
  cases hstep with
  | @safeMint msg t question context a uri rs hzero hmax hfree =>
      have hp : p ≠ w.nextPrompt t := by
        intro hp
        exact hlive (hp ▸ hfree)
      simp [queryPromptInfoById, hp]
  | @replyPrompt msg q r detail comment signature hadmin =>
      by_cases hp : p = q
      · subst hp
        simp [queryPromptInfoById]
      · simp [queryPromptInfoById, hp]
  | @burnReplies msg q r =>
      by_cases hp : p = q
      · subst hp
        simp [queryPromptInfoById]
      · simp [queryPromptInfoById, hp]
  | @burnPrompt msg q =>
      -- the prompt that is burned is the sender's, or not live
      have hp : p ≠ q := by
        rintro rfl
        rcases hentitled with howner | ⟨hzero, _⟩
        · exact hother howner
        · exact hlive hzero
      simp [queryPromptInfoById, hp]
  | @setTokenURI msg q uri howner =>
      have hp : p ≠ q := by
        rintro rfl
        exact hother howner.symm
      simp [queryPromptInfoById, hp]

/-- An entitled call leaves the endorsements of others as they are. -/
theorem Step.endorsement_untouched (hstep : Step w c w') (hadmin : c.msg.sender ≠ ADMIN)
    (hentitled : Entitled c w) {p : Prompt} {r : Address} {info : ReplyInfo}
    (hother : (w.prompt p).promptOwner ≠ c.msg.sender) (hr : r ≠ c.msg.sender)
    (hinfo : endorsement p r w.calls = some info) : endorsement p r w'.calls = some info := by
  rw [hstep.calls_eq, endorsement_snoc, hinfo]
  cases hstep with
  | safeMint rs hzero hmax hfree => rfl
  | replyPrompt hsender => exact absurd hsender hadmin
  | @burnReplies msg q s =>
      -- it is a reply to a prompt of the sender's, one of his own, or none
      have hps : ¬ (p = q ∧ r = s) := by
        rintro ⟨rfl, rfl⟩
        rcases hentitled with howner | hself | hnone
        · exact hother howner
        · exact hr hself
        · rw [hnone] at hinfo
          cases hinfo
      simp [Call.endorses, hps]
  | @burnPrompt msg q =>
      have hp : p ≠ q := by
        rintro rfl
        rcases hentitled with howner | ⟨_, hnone⟩
        · exact hother howner
        · rw [hnone r hr] at hinfo
          cases hinfo
      simp [Call.endorses, hp]
  | setTokenURI howner => rfl

theorem Step.untouched (hstep : Step w c w') (hinv : EndorsedInv w)
    (hadmin : c.msg.sender ≠ ADMIN) (hentitled : Entitled c w) :
    Untouched c.msg.sender w w' where
  prompts := fun _ hlive hother => hstep.prompts_untouched hentitled hlive hother
  replies := fun _ _ _ hother hr hrecorded => (hstep.endorsedInv hinv).replyRecorded
    (hstep.endorsement_untouched hadmin hentitled hother hr hrecorded.2.1)

/-! ## Calls that are not entitled -/

/-- A call that leaves alone what belongs to others is entitled. -/
theorem Step.entitled (hstep : Step w c w') (hinv : EndorsedInv w)
    (h : Untouched c.msg.sender w w') : Entitled c w := by
  rcases c with ⟨msg, op⟩
  cases op with
  | safeMint t question context a uri => exact trivial
  | replyPrompt q s detail comment signature => exact trivial
  | setTokenURI q uri => exact trivial
  | burnReplies p r =>
      show (w.prompt p).promptOwner = msg.sender ∨ r = msg.sender ∨ endorsement p r w.calls = none
      by_contra hnot
      simp only [not_or] at hnot
      rcases hnot with ⟨hother, hr, hsome⟩
      rcases Option.ne_none_iff_exists'.mp hsome with ⟨info, hinfo⟩
      -- the endorsement is cleared
      have hkept := (h.replies p r info hother hr (hinv.replyRecorded hinfo)).2.1
      rw [hstep.endorsement_cleared (by simp [Call.endorses])] at hkept
      cases hkept
  | burnPrompt p =>
      show (w.prompt p).promptOwner = msg.sender ∨ ((w.prompt p).promptOwner = zeroAddress ∧
        ∀ r, r ≠ msg.sender → endorsement p r w.calls = none)
      by_cases hother : (w.prompt p).promptOwner = msg.sender
      · exact Or.inl hother
      · right
        constructor
        · -- a live prompt would lose its owner
          by_contra hlive
          have hsame : (w'.prompt p).promptOwner = (w.prompt p).promptOwner :=
            congrArg Prod.fst (h.prompts p hlive hother)
          rw [hstep.promptOwner_eq] at hsame
          exact hlive (by simpa [World.ownerAfter] using hsame.symm)
        · -- a reply of somebody else would be gone
          intro r hr
          by_contra hsome
          rcases Option.ne_none_iff_exists'.mp hsome with ⟨info, hinfo⟩
          have hkept := (h.replies p r info hother hr (hinv.replyRecorded hinfo)).2.1
          rw [hstep.endorsement_cleared (by simp [Call.endorses])] at hkept
          cases hkept

/-! ## The law of calls and of runs -/

/-- An entitled call by somebody who is neither the administrator nor `a` nor `r`. -/
def Bystander (a r : Address) (c : Call) (w : World) : Prop :=
  c.msg.sender ≠ ADMIN ∧ c.msg.sender ≠ a ∧ c.msg.sender ≠ r ∧ Entitled c w

/-- **What belongs to others is left alone exactly by entitled calls.** And in
runs of entitled calls by bystanders a live prompt keeps its data, and a reply
to it stays on record and is still returned. -/
theorem untouched_iff_entitled {w : World} (h : Reachable w) :
    (∀ c recv w', c.msg.sender ≠ ADMIN → dispatch c recv id w = .ok w' →
      (Untouched c.msg.sender w w' ↔ Entitled c w)) ∧
    (∀ p, (w.prompt p).promptOwner ≠ zeroAddress →
      ∀ r w', ReachableFrom (Bystander (w.prompt p).promptOwner r) w w' →
        queryPromptInfoById p w' = queryPromptInfoById p w ∧
        ∀ info, ReplyRecorded p r info w → ReplyRecorded p r info w') := by
  constructor
  · intro c recv w' hadmin hx
    have hstep := dispatch_step hx
    constructor
    · intro huntouched
      exact hstep.entitled h.endorsedInv huntouched
    · intro hentitled
      exact hstep.untouched h.endorsedInv hadmin hentitled
  · intro p hlive r w' hrun
    refine ReachableFrom.induction
      (P := fun v => queryPromptInfoById p v = queryPromptInfoById p w ∧
        ∀ info, ReplyRecorded p r info w → ReplyRecorded p r info v)
      ⟨rfl, fun _ hrecorded => hrecorded⟩ ?_ hrun
    rintro v c v' hv ⟨hsame, hrecorded⟩ ⟨hadmin, howner, hr, hentitled⟩ hstep
    -- the owner is among the data kept so far
    have hsameOwner : (v.prompt p).promptOwner = (w.prompt p).promptOwner :=
      congrArg Prod.fst hsame
    have hlive' : (v.prompt p).promptOwner ≠ zeroAddress := hsameOwner ▸ hlive
    have hother : (v.prompt p).promptOwner ≠ c.msg.sender := hsameOwner ▸ howner.symm
    have hv' : Reachable v := ReachableBy.trans h (hv.mono fun _ _ _ => trivial)
    have huntouched := hstep.untouched hv'.endorsedInv hadmin hentitled
    constructor
    · exact (huntouched.prompts p hlive' hother).trans hsame
    · intro info hinfo
      exact huntouched.replies p r info hother hr.symm (hrecorded info hinfo)

/-- The burn of Alice's prompt, by whoever. -/
def burnOfAlices (sender : Address) : Call :=
  ⟨⟨sender, 3⟩, .burnPrompt ⟨0, 1⟩⟩

theorem untouched_by_owner :
    Untouched alice (worldAfter mintAndReplyTxs)
      (((worldAfter mintAndReplyTxs).record (burnOfAlices alice)).promptBurned ⟨0, 1⟩) :=
  ((untouched_iff_entitled (reachable_worldAfter mintAndReplyTxs)).1 (burnOfAlices alice)
    ⟨0, .undecodable⟩ _ (show alice ≠ ADMIN by decide) (burnPrompt_eq ⟨0, 1⟩ _)).mpr
      (Or.inl (show ((worldAfter mintAndReplyTxs).prompt ⟨0, 1⟩).promptOwner = alice by
        decide +kernel))

/-- Carol, who has no part in it, burns Alice's prompt with Bob's reply. -/
theorem stranger_burns_prompt :
    Reachable (worldAfter mintAndReplyTxs) ∧
    ((worldAfter mintAndReplyTxs).prompt ⟨0, 1⟩).promptOwner = alice ∧
    ((worldAfter mintAndReplyTxs).prompt ⟨0, 1⟩).keys = [bob] ∧
    (∃ w', dispatch (burnOfAlices carol) ⟨0, .undecodable⟩ id (worldAfter mintAndReplyTxs) =
        .ok w' ∧
      (w'.prompt ⟨0, 1⟩).promptOwner = zeroAddress ∧
      queryAllRepliesByPrompt ⟨0, 1⟩ w' = .ok []) ∧
    ¬ ∀ w c recv w', Reachable w → c.msg.sender ≠ ADMIN → dispatch c recv id w = .ok w' →
      Untouched c.msg.sender w w' := by
  have hreach := reachable_worldAfter mintAndReplyTxs
  have howner : ((worldAfter mintAndReplyTxs).prompt ⟨0, 1⟩).promptOwner = alice := by
    decide +kernel
  have hburn : dispatch (burnOfAlices carol) ⟨0, .undecodable⟩ id (worldAfter mintAndReplyTxs) =
      .ok (((worldAfter mintAndReplyTxs).record (burnOfAlices carol)).promptBurned ⟨0, 1⟩) :=
    burnPrompt_eq ⟨0, 1⟩ _
  refine ⟨hreach, howner, by decide +kernel, ⟨_, hburn, ?_, ?_⟩, ?_⟩
  · simp [PromptInfo.delete]
  · simp [queryAllRepliesByPrompt_eq, PromptInfo.delete]
  · intro huntouched
    have hkept := (huntouched _ _ _ _ hreach (show carol ≠ ADMIN by decide) hburn).prompts ⟨0, 1⟩
      (by rw [howner]; decide) (by rw [howner]; decide)
    have hsame := congrArg Prod.fst hkept
    have hbefore : (queryPromptInfoById ⟨0, 1⟩ (worldAfter mintAndReplyTxs)).1 = alice := howner
    rw [hbefore] at hsame
    simp [queryPromptInfoById, PromptInfo.delete, zeroAddress, alice] at hsame

end Yes3.LyonPrompt
