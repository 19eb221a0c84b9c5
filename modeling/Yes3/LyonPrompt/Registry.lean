import Yes3.Rules.Replay
import Yes3.LyonPrompt.Lifecycle
import Yes3.LyonPrompt.Minting

/-!
# Yes3.LyonPrompt.Registry — what the prompt contract is for

The contract as an abstract machine: a registry that numbers the prompts of a
template, keeps a slip for every prompt that is not burned, a list of what was
minted to whom, and a log. It has no slots to be found free or left behind, and
the burn of a prompt has no list to search.

* `Registry.step` is the machine. It refuses what the contract refuses.
* `Step.registry` is the refinement, one call at a time.
* `refines_registry` is the result: in every observable world the history is a
  legal log of the registry, every view but those of the replies, and the event log,
  show the state of the registry, and the next call is accepted exactly if the
  registry takes it and the receiver of the prompt, if there is one, accepts.
-/

namespace Yes3.LyonPrompt

open CallTree Replay

/-! ## The machine -/

/-- What is on record about a prompt. -/
structure Slip where
  owner : Address
  question : String
  context : String
  createTime : ℕ
  uri : String
deriving DecidableEq, Repr

@[ext] structure Registry where
  /-- How many prompts were issued under the template. -/
  issued : ℕ → ℕ := fun _ => 0
  /-- The prompts that are not burned. -/
  live : Prompt → Option Slip := fun _ => none
  /-- What was minted to the account, burned or not. -/
  minted : Address → List Prompt := fun _ => []
  log : List Event := []

namespace Registry

/-- The number that the template issues next. -/
def next (t : ℕ) (r : Registry) : Prompt := ⟨t, r.issued t + 1⟩

def issue (msg : Msg) (t : ℕ) (question context : String) (a : Address) (uri : String)
    (r : Registry) : Registry where
  issued := Function.update r.issued t (r.issued t + 1)
  live := Function.update r.live (r.next t) (some ⟨a, question, context, msg.timestamp, uri⟩)
  minted := Function.update r.minted a (r.minted a ++ [r.next t])
  log := r.log ++ [.promptMinted t (r.issued t + 1) a]

/-- A reply is announced with the owner and the question of the prompt, if there
is one. -/
def announce (msg : Msg) (p : Prompt) (replier : Address) (detail comment signature : String)
    (r : Registry) : Registry :=
  let owner := ((r.live p).map Slip.owner).getD zeroAddress
  let question := ((r.live p).map Slip.question).getD ""
  { r with
    log := r.log ++ [.repliedToPrompt p.templateId p.id owner question replier detail comment
      signature msg.timestamp] }

def withdraw (p : Prompt) (r : Registry) : Registry :=
  { r with live := Function.update r.live p none }

def edit (p : Prompt) (slip : Slip) (r : Registry) : Registry :=
  { r with live := Function.update r.live p (some slip) }

/-- What the registry does with a call, if it takes it. -/
def step (r : Registry) (c : Call) : Option Registry :=
  match c.op with
  | .safeMint t question context a uri =>
    if a ≠ zeroAddress ∧ r.issued t + 1 < 2 ^ 256 then
      some (r.issue c.msg t question context a uri)
    else none
  | .replyPrompt p replier detail comment signature =>
    if c.msg.sender = ADMIN then some (r.announce c.msg p replier detail comment signature)
    else none
  | .burnReplies _ _ => some r
  | .burnPrompt p => some (r.withdraw p)
  | .setTokenURI p uri =>
    match r.live p with
    | some slip =>
      if slip.owner = c.msg.sender then some (r.edit p { slip with uri := uri }) else none
    | none => none

theorem step_setTokenURI {r : Registry} {msg : Msg} {p : Prompt} {uri : String} {slip : Slip}
    (h : r.live p = some slip) :
    r.step ⟨msg, .setTokenURI p uri⟩ =
      if slip.owner = msg.sender then some (r.edit p { slip with uri := uri }) else none := by
  simp only [step, h]

end Registry

/-! ## What the contract shows of it -/

/-- The slip that a slot holds. -/
def PromptInfo.slip (info : PromptInfo) : Option Slip :=
  if info.promptOwner ≠ zeroAddress then
    some ⟨info.promptOwner, info.question, info.context, info.createTime, info.SBTURI⟩
  else none

/-- The registry that the storage encodes. -/
def World.registry (w : World) : Registry where
  issued := w.currentIndex
  live := fun p => (w.prompt p).slip
  minted := w.promptByOwner
  log := w.events

/-- A receiver accepts a prompt, if the call mints one to it. -/
def Accepts (recv : Receiver) (c : Call) : Prop :=
  match c.op with
  | .safeMint .. =>
    isContract recv = false ∨ recv.answer = .returned onILyonPromptReceivedSelector
  | _ => True

section Slip

variable {info : PromptInfo} {w : World} {p : Prompt}

theorem slip_of_live (h : info.promptOwner ≠ zeroAddress) :
    info.slip =
      some ⟨info.promptOwner, info.question, info.context, info.createTime, info.SBTURI⟩ :=
  if_pos h

theorem slip_eq_none_iff : info.slip = none ↔ info.promptOwner = zeroAddress := by
  simp [PromptInfo.slip]

/-- The owner and the question can be read off the slip, also where there is none. -/
theorem promptOwner_eq_slip : info.promptOwner = (info.slip.map Slip.owner).getD zeroAddress := by
  by_cases h : info.promptOwner = zeroAddress
  · rw [slip_eq_none_iff.mpr h]
    exact h
  · rw [slip_of_live h]
    rfl

theorem question_eq_slip (hblank : info.promptOwner = zeroAddress → info.Blank) :
    info.question = (info.slip.map Slip.question).getD "" := by
  by_cases h : info.promptOwner = zeroAddress
  · rw [slip_eq_none_iff.mpr h]
    exact congrArg Prod.fst (hblank h).1
  · rw [slip_of_live h]
    rfl

end Slip

/-! ## One call -/

/-- **Refinement**: every call does to the storage what it does to the registry.
The slot of a mint is free because its number was not issued before, and the burn
of a prompt finds nothing in the list that it searches. -/
theorem Step.registry {w w' : World} {c : Call} (hstep : Step w c w') (hinv : OwnerInv w)
    (hblank : UnownedBlank w) (hsender : SenderNonzero c w) :
    w.registry.step c = some w'.registry := by
  cases hstep with
  | @safeMint msg t question context a uri rs hzero hmax hfree =>
      refine (if_pos ⟨hzero, hmax⟩).trans (congrArg some (Registry.ext rfl ?_ rfl rfl))
      funext p
      by_cases hp : p = w.nextPrompt t
      · subst hp
        simp [World.registry, Registry.issue, Registry.next, World.nextPrompt, PromptInfo.slip,
          hzero]
      · have hp' : p ≠ ⟨t, w.currentIndex t + 1⟩ := hp
        simp [World.registry, Registry.issue, Registry.next, World.nextPrompt, hp']
  | @replyPrompt msg p replier detail comment signature hadmin =>
      refine (if_pos hadmin).trans (congrArg some (Registry.ext rfl ?_ rfl ?_))
      · funext q
        exact (update_keeps PromptInfo.slip (by rfl) q).symm
      · -- the announcement is made from the slot, blank or not
        have howner : (w.prompt p).promptOwner = _ := promptOwner_eq_slip
        have hquestion : (w.prompt p).question = _ := question_eq_slip (hblank p)
        simp only [World.registry, Registry.announce, World.replied]
        rw [howner, hquestion]
  | @burnReplies msg p replier =>
      refine congrArg some (Registry.ext rfl ?_ rfl rfl)
      funext q
      exact (update_keeps PromptInfo.slip (by rfl) q).symm
  | @burnPrompt msg p =>
      refine congrArg some (Registry.ext rfl ?_ (hinv.promptBurned_promptByOwner p).symm rfl)
      funext q
      by_cases hq : q = p
      · subst hq
        simp [World.registry, Registry.withdraw, PromptInfo.slip, PromptInfo.delete]
      · simp [World.registry, Registry.withdraw, hq]
  | @setTokenURI msg p uri howner =>
      -- the owner of a slot that is not live is the zero address, which sends nothing
      have hlive : (w.prompt p).promptOwner ≠ zeroAddress := howner ▸ hsender
      have hslip : w.registry.live p = _ := slip_of_live hlive
      rw [Registry.step_setTokenURI hslip, if_pos howner.symm]
      refine congrArg some (Registry.ext rfl ?_ rfl rfl)
      funext q
      by_cases hq : q = p
      · subst hq
        simp [World.registry, Registry.edit, PromptInfo.slip, hlive]
      · simp [World.registry, Registry.edit, hq]

/-- A call is accepted exactly if the registry takes it, and its receiver accepts. -/
theorem dispatch_succeeds_iff {w : World} {c : Call} (hinv : OwnerInv w)
    (hsender : SenderNonzero c w) (recv : Receiver) (f : World → World) :
    (∃ w', dispatch c recv f w = .ok w') ↔
      (∃ r, w.registry.step c = some r) ∧ Accepts recv c := by
  rcases c with ⟨msg, op⟩
  cases op with
  | safeMint t question context a uri =>
      -- the number that is issued next is not in use
      have hfree : (w.prompt (w.nextPrompt t)).promptOwner = zeroAddress := by
        by_contra hlive
        exact not_issued_nextPrompt t w (hinv.owned _ hlive)
      constructor
      · rintro ⟨w', h⟩
        obtain ⟨w₁, hm, hw⟩ := safeMint_ok_iff.mp h
        obtain ⟨hzero, hmax, _, _⟩ := mint_ok_iff.mp hm
        refine ⟨⟨_, if_pos ⟨hzero, hmax⟩⟩, ?_⟩
        rcases hw with ⟨hc, _⟩ | ⟨_, hanswer, _⟩
        · exact Or.inl hc
        · exact Or.inr hanswer
      · rintro ⟨⟨r, hr⟩, haccepts⟩
        obtain ⟨⟨hzero, hmax⟩, _⟩ := Option.ite_none_right_eq_some.mp hr
        have hm : mint msg t question context a uri
            (w.record ⟨msg, .safeMint t question context a uri⟩) = .ok _ :=
          mint_ok_iff.mpr ⟨hzero, hmax, hfree, rfl⟩
        rcases haccepts with hc | hanswer
        · exact ⟨_, safeMint_ok_iff.mpr ⟨_, hm, Or.inl ⟨hc, rfl⟩⟩⟩
        · by_cases hc : isContract recv = true
          · exact ⟨_, safeMint_ok_iff.mpr ⟨_, hm, Or.inr ⟨hc, hanswer, rfl⟩⟩⟩
          · exact ⟨_, safeMint_ok_iff.mpr ⟨_, hm, Or.inl ⟨by simpa using hc, rfl⟩⟩⟩
  | replyPrompt p replier detail comment signature =>
      constructor
      · rintro ⟨w', h⟩
        exact ⟨⟨_, if_pos (replyPrompt_ok_iff.mp h).1⟩, trivial⟩
      · rintro ⟨⟨r, hr⟩, _⟩
        obtain ⟨hadmin, _⟩ := Option.ite_none_right_eq_some.mp hr
        exact ⟨_, replyPrompt_ok_iff.mpr ⟨hadmin, rfl⟩⟩
  | burnReplies p replier =>
      exact iff_of_true ⟨_, burnReplies_eq p replier _⟩ ⟨⟨_, rfl⟩, trivial⟩
  | burnPrompt p => exact iff_of_true ⟨_, burnPrompt_eq p _⟩ ⟨⟨_, rfl⟩, trivial⟩
  | setTokenURI p uri =>
      constructor
      · rintro ⟨w', h⟩
        have howner := (setTokenURI_ok_iff.mp h).1
        have hlive : (w.prompt p).promptOwner ≠ zeroAddress := howner ▸ hsender
        have hslip : w.registry.live p = _ := slip_of_live hlive
        exact ⟨⟨_, (Registry.step_setTokenURI hslip).trans (if_pos howner.symm)⟩, trivial⟩
      · rintro ⟨⟨r, hr⟩, _⟩
        have hlive : (w.prompt p).promptOwner ≠ zeroAddress := by
          intro hzero
          have hnone : w.registry.live p = none := slip_eq_none_iff.mpr hzero
          simp [Registry.step, hnone] at hr
        have hslip : w.registry.live p = _ := slip_of_live hlive
        rw [Registry.step_setTokenURI hslip] at hr
        obtain ⟨howner, _⟩ := Option.ite_none_right_eq_some.mp hr
        exact ⟨_, setTokenURI_ok_iff.mpr ⟨howner.symm, rfl⟩⟩

/-! ## Whole runs -/

/-- The views of the contract show the registry. -/
structure Shows (w : World) (r : Registry) : Prop where
  promptInfo : ∀ p, queryPromptInfoById p w =
    match r.live p with
    | some slip => (slip.owner, slip.question, slip.context, slip.uri, slip.createTime)
    | none => (zeroAddress, "", "", "", 0)
  tokenURI : ∀ p, tokenURI p w = ((r.live p).map Slip.uri).getD ""
  totalSupply : ∀ t, totalSupply t w = r.issued t
  promptByAddress : ∀ a, queryAllPromptByAddress a w = r.minted a
  balance : ∀ a, a ≠ zeroAddress → balanceOf a w = .ok (r.minted a).length
  log : w.events = r.log

/-- A slot shows the slip that it holds, and nothing if it holds none. -/
theorem shows_registry {w : World} (hblank : UnownedBlank w) : Shows w w.registry where
  promptInfo := by
    intro p
    by_cases hlive : (w.prompt p).promptOwner = zeroAddress
    · have hslip : w.registry.live p = none := slip_eq_none_iff.mpr hlive
      obtain ⟨hcontent, huri⟩ := hblank p hlive
      simp only [PromptInfo.content, Prod.mk.injEq] at hcontent
      simp [queryPromptInfoById, hslip, hlive, hcontent, huri]
    · have hslip : w.registry.live p = _ := slip_of_live hlive
      rw [hslip]
      rfl
  tokenURI := by
    intro p
    by_cases hlive : (w.prompt p).promptOwner = zeroAddress
    · have hslip : w.registry.live p = none := slip_eq_none_iff.mpr hlive
      rw [hslip]
      exact (hblank p hlive).2
    · have hslip : w.registry.live p = _ := slip_of_live hlive
      rw [hslip]
      rfl
  totalSupply := fun _ => rfl
  promptByAddress := fun _ => rfl
  balance := fun _ ha => require_bind_of_pos ha _ _
  log := rfl

theorem replay_registry {w : World} (h : ReachableVia SenderNonzero w) :
    replay Registry.step {} w.calls = some w.registry := by
  refine replay_of_reachable effectsFirst World.calls World.registry rfl calls_of_dispatch ?_ h
  intro v c recv v' hv hsender hx
  exact (dispatch_step hx).registry (ReachableVia.reachable hv).ownerInv
    (unownedBlank_of_reachable hv) hsender

/-- **The contract refines the registry.** In every world that outside code can
observe, with no call sent by the zero address: the history is a legal log of the
registry; the views and the event log show the state that the registry is in after
it; and the next call is accepted, whatever its callback does, exactly if the
registry takes it and the receiver of the prompt accepts. -/
theorem refines_registry {w : World} (h : ReachableVia SenderNonzero w) :
    ∃ r, replay Registry.step {} w.calls = some r ∧ Shows w r ∧
      ∀ c recv f, c.msg.sender ≠ zeroAddress →
        ((∃ w', dispatch c recv f w = .ok w') ↔ (∃ r', r.step c = some r') ∧ Accepts recv c) := by
  refine ⟨w.registry, replay_registry h, shows_registry (unownedBlank_of_reachable h), ?_⟩
  intro c recv f hsender
  exact dispatch_succeeds_iff h.reachable.ownerInv hsender recv f

theorem refines_registry_after_burn :
    ∃ r, replay Registry.step {} (worldAfter mintAndBurnTxs).calls = some r ∧
      r.live ⟨0, 1⟩ = none ∧ r.minted alice = [⟨0, 1⟩] := by
  have hburned : ReachableVia SenderNonzero (worldAfter mintAndBurnTxs) :=
    reachableVia_worldAfter ⟨meets_callTx (show alice ≠ zeroAddress by decide),
      meets_callTx (show alice ≠ zeroAddress by decide), trivial⟩
  obtain ⟨r, hr, hshows, _⟩ := refines_registry hburned
  refine ⟨r, hr, ?_, ?_⟩
  · have hcalls : (worldAfter mintAndBurnTxs).calls =
        [⟨⟨alice, 1⟩, .safeMint 0 "q" "c" alice "u"⟩, ⟨⟨alice, 2⟩, .burnPrompt ⟨0, 1⟩⟩] := by
      decide +kernel
    rw [hcalls] at hr
    obtain rfl := Option.some.inj hr
    rfl
  · rw [← hshows.promptByAddress]
    decide +kernel

end Yes3.LyonPrompt
