import Yes3.LyonPrompt.Contract
import Yes3.Rules.CallTree

/-!
# Yes3.LyonPrompt.Exec — runs of the prompt contract

The contract as a re-entrant component (`dispatch` is its `CallTree.Machine`),
and what a call can do.

* One lemma per function says what it does to the world and under which guards
  (`mint_ok_iff`, ..., `setTokenURI_ok_iff`); `Step` collects them into one
  transition relation, from which every invariant is proved.
* `effectsFirst`: `safeMint` writes all it writes before it calls the receiver,
  so the library's linearisation applies, and every execution, however nested,
  is a sequence of `Step`s.
* `ReachableVia guard` are the worlds that code outside the contract can
  observe, between calls or inside a callback, when the calls made meet `guard`.
-/

namespace Yes3.LyonPrompt

open CallTree

/-- A call of the contract. It is noted in the history when it is made. -/
def dispatch : Machine World Call Receiver (Revert Error) := fun c recv callback w =>
  let w := w.record c
  match c.op with
  | .safeMint templateId question context toAddress SBTURI =>
    safeMint c.msg recv callback templateId question context toAddress SBTURI w
  | .replyPrompt promptId replierAddress replyDetail comment signature =>
    replyPrompt c.msg promptId replierAddress replyDetail comment signature w
  | .burnReplies promptId replier => burnReplies promptId replier w
  | .burnPrompt promptId => burnPrompt promptId w
  | .setTokenURI tokenId tokenURI => setTokenURI c.msg tokenId tokenURI w

/-- An execution of outside code. -/
abbrev Tx := Tree Call Receiver (Revert Error)

/-! ## Effects -/

/-- The test of the first loop of `burnReplies`. -/
def isKey (replier : Address) : Address → Bool := fun key => key = replier

/-- The test of the second loop of `burnReplies`. -/
def isPrompt (p : Prompt) : Prompt → Bool := fun q => q.templateId = p.templateId && q.id = p.id

/-- The test of the loops of `burnPrompt`, which compares ids only. -/
def hasId (p : Prompt) : Prompt → Bool := fun q => q.id = p.id

theorem isKey_iff {replier : Address} (key : Address) : isKey replier key ↔ key = replier := by
  simp [isKey]

theorem isPrompt_iff {p : Prompt} (q : Prompt) : isPrompt p q ↔ q = p := by
  cases q
  cases p
  simp [isPrompt]

attribute [simp] World.emit World.record World.receive World.modifyPrompt World.setCurrentIndex
  World.setPromptByOwner World.setPromptByReplier

namespace World

/-- The slot that the next mint under a template takes. -/
def nextPrompt (t : ℕ) (w : World) : Prompt := ⟨t, w.currentIndex t + 1⟩

/-- After a mint. -/
@[simp] def minted (msg : Msg) (t : ℕ) (question context : String) (a : Address) (uri : String)
    (w : World) : World :=
  { w with
    prompt := Function.update w.prompt (w.nextPrompt t)
      { w.prompt (w.nextPrompt t) with
        promptOwner := a
        question := question
        context := context
        createTime := msg.timestamp
        SBTURI := uri }
    currentIndex := Function.update w.currentIndex t (w.currentIndex t + 1)
    promptByOwner := Function.update w.promptByOwner a (w.promptByOwner a ++ [w.nextPrompt t])
    events := w.events ++ [.promptMinted t (w.currentIndex t + 1) a] }

/-- After a reply. -/
@[simp] def replied (msg : Msg) (p : Prompt) (r : Address) (detail comment signature : String)
    (w : World) : World :=
  { w with
    prompt := Function.update w.prompt p
      { w.prompt p with
        replies := Function.update (w.prompt p).replies r
          ⟨detail, comment, signature, msg.timestamp⟩
        keys := (w.prompt p).keys ++ [r] }
    promptByReplier := Function.update w.promptByReplier r (w.promptByReplier r ++ [p])
    events := w.events ++ [.repliedToPrompt p.templateId p.id (w.prompt p).promptOwner
      (w.prompt p).question r detail comment signature msg.timestamp] }

/-- After the burn of a reply. -/
@[simp] def replyBurned (p : Prompt) (r : Address) (w : World) : World :=
  { w with
    prompt := Function.update w.prompt p
      { w.prompt p with
        replies := Function.update (w.prompt p).replies r ReplyInfo.blank
        keys := DynArray.swapErase (isKey r) (w.prompt p).keys }
    promptByReplier := Function.update w.promptByReplier r
      (DynArray.swapErase (isPrompt p) (w.promptByReplier r)) }

/-- After the burn of a prompt. Both loops walk the list of the zero address,
which is the owner that the slot has after the delete. -/
@[simp] def promptBurned (p : Prompt) (w : World) : World :=
  { w with
    prompt := Function.update w.prompt p (w.prompt p).delete
    promptByOwner := Function.update w.promptByOwner zeroAddress
      (DynArray.swapErase (hasId p)
        (DynArray.swapErase (hasId p) (w.promptByOwner zeroAddress))) }

/-- After an update of the URI. -/
@[simp] def uriSet (p : Prompt) (uri : String) (w : World) : World :=
  { w with prompt := Function.update w.prompt p { w.prompt p with SBTURI := uri } }

end World

/-! ## What each function does -/

/-- `_mint` succeeds exactly under its three guards. -/
theorem mint_ok_iff {msg : Msg} {t : ℕ} {question context : String} {a : Address} {uri : String}
    {w w' : World} :
    mint msg t question context a uri w = .ok w' ↔
      a ≠ zeroAddress ∧ w.currentIndex t + 1 < 2 ^ 256 ∧
      (w.prompt (w.nextPrompt t)).promptOwner = zeroAddress ∧
      w' = w.minted msg t question context a uri := by
  constructor
  · intro h
    rcases of_require_bind_ok h with ⟨hzero, h⟩
    rcases of_checkedIncr_bind_ok h with ⟨hmax, h⟩
    rcases of_require_bind_ok h with ⟨hfree, h⟩
    refine ⟨hzero, hmax, hfree, ?_⟩
    simpa [World.nextPrompt, pure, Except.pure] using h.symm
  · rintro ⟨hzero, hmax, hfree, rfl⟩
    unfold mint
    rw [require_bind_of_pos hzero, checkedIncr_bind_of_lt hmax,
      require_bind_of_pos (by simpa [World.nextPrompt] using hfree)]
    simp [World.nextPrompt, pure, Except.pure]

/-- `safeMint` succeeds when its mint does and the receiver, if it is a
contract, answers with the selector. The callback runs last. -/
theorem safeMint_ok_iff {msg : Msg} {recv : Receiver} {callback : World → World} {t : ℕ}
    {question context : String} {a : Address} {uri : String} {w w' : World} :
    safeMint msg recv callback t question context a uri w = .ok w' ↔
      ∃ w₁, mint msg t question context a uri w = .ok w₁ ∧
        ((isContract recv = false ∧ w' = w₁) ∨
          (isContract recv = true ∧ recv.answer = .returned onILyonPromptReceivedSelector ∧
            w' = callback (w₁.receive ⟨a, msg.sender, zeroAddress, t, []⟩))) := by
  unfold safeMint
  cases hm : mint msg t question context a uri w with
  | error e => simp [bind, Except.bind]
  | ok w₁ =>
      cases hc : isContract recv with
      | false => simp [checkOnILyonPromptReceived, hc, bind, Except.bind, pure, Except.pure,
          require, eq_comm]
      | true =>
          -- a contract has to answer, and with the selector
          cases ha : recv.answer with
          | undecodable => simp [checkOnILyonPromptReceived, hc, ha, bind, Except.bind]
          | reverted reason =>
              by_cases hr : reason.length = 0 <;>
                simp [checkOnILyonPromptReceived, hc, ha, hr, bind, Except.bind]
          | returned retval =>
              by_cases hv : retval = onILyonPromptReceivedSelector <;>
                simp [checkOnILyonPromptReceived, hc, ha, hv, bind, Except.bind, pure,
                  Except.pure, require, eq_comm]

theorem replyPrompt_ok_iff {msg : Msg} {p : Prompt} {r : Address}
    {detail comment signature : String} {w w' : World} :
    replyPrompt msg p r detail comment signature w = .ok w' ↔
      msg.sender = ADMIN ∧ w' = w.replied msg p r detail comment signature := by
  constructor
  · intro h
    rcases of_require_bind_ok h with ⟨hadmin, h⟩
    exact ⟨hadmin, by simpa [pure, Except.pure] using h.symm⟩
  · rintro ⟨hadmin, rfl⟩
    simp [replyPrompt, hadmin, pure, Except.pure]

/-- `burnReplies` never reverts: no access in its loops fails. -/
theorem burnReplies_eq (p : Prompt) (r : Address) (w : World) :
    burnReplies p r w = .ok (w.replyBurned p r) := by
  have hkey : (fun key : Address => decide (key = r)) = isKey r := rfl
  have hprompt : (fun q : Prompt => decide (q.templateId = p.templateId) && decide (q.id = p.id)) =
      isPrompt p := rfl
  simp [burnReplies, DynArray.removeFirst_eq, hkey, hprompt, bind, Except.bind, pure, Except.pure]

/-- `burnPrompt` never reverts. -/
theorem burnPrompt_eq (p : Prompt) (w : World) :
    burnPrompt p w = .ok (w.promptBurned p) := by
  have hid : (fun q : Prompt => decide (q.id = p.id)) = hasId p := rfl
  simp [burnPrompt, removeFromOwner, DynArray.removeFirst_eq, PromptInfo.delete, hid, bind,
    Except.bind, pure, Except.pure]

theorem setTokenURI_ok_iff {msg : Msg} {p : Prompt} {uri : String} {w w' : World} :
    setTokenURI msg p uri w = .ok w' ↔
      msg.sender = (w.prompt p).promptOwner ∧ w' = w.uriSet p uri := by
  constructor
  · intro h
    rcases of_require_bind_ok h with ⟨howner, h⟩
    exact ⟨howner, by simpa [pure, Except.pure] using h.symm⟩
  · rintro ⟨howner, rfl⟩
    simp [setTokenURI, howner, pure, Except.pure]

/-- The view fills its array with the current record of every key. -/
theorem queryAllRepliesByPrompt_eq (p : Prompt) (w : World) :
    queryAllRepliesByPrompt p w = .ok ((w.prompt p).keys.map (w.prompt p).replies) := by
  simp [queryAllRepliesByPrompt, DynArray.mapInto_eq]

/-! ## Steps -/

/-- The transitions of the contract: a call that succeeds in `w` when its
callback, if there is one, does nothing. `rs` is what has been sent to receivers. -/
inductive Step : World → Call → World → Prop where
  | safeMint {w : World} {msg : Msg} {t : ℕ} {question context : String} {a : Address}
      {uri : String} (rs : List Received) (hzero : a ≠ zeroAddress)
      (hmax : w.currentIndex t + 1 < 2 ^ 256)
      (hfree : (w.prompt (w.nextPrompt t)).promptOwner = zeroAddress) :
      Step w ⟨msg, .safeMint t question context a uri⟩
        { w.minted msg t question context a uri with
          calls := w.calls ++ [⟨msg, .safeMint t question context a uri⟩]
          received := rs }
  | replyPrompt {w : World} {msg : Msg} {p : Prompt} {r : Address}
      {detail comment signature : String} (hadmin : msg.sender = ADMIN) :
      Step w ⟨msg, .replyPrompt p r detail comment signature⟩
        { w.replied msg p r detail comment signature with
          calls := w.calls ++ [⟨msg, .replyPrompt p r detail comment signature⟩] }
  | burnReplies {w : World} {msg : Msg} {p : Prompt} {r : Address} :
      Step w ⟨msg, .burnReplies p r⟩
        { w.replyBurned p r with calls := w.calls ++ [⟨msg, .burnReplies p r⟩] }
  | burnPrompt {w : World} {msg : Msg} {p : Prompt} :
      Step w ⟨msg, .burnPrompt p⟩
        { w.promptBurned p with calls := w.calls ++ [⟨msg, .burnPrompt p⟩] }
  | setTokenURI {w : World} {msg : Msg} {p : Prompt} {uri : String}
      (howner : msg.sender = (w.prompt p).promptOwner) :
      Step w ⟨msg, .setTokenURI p uri⟩
        { w.uriSet p uri with calls := w.calls ++ [⟨msg, .setTokenURI p uri⟩] }

/-- A call that succeeds with an idle callback is a step. -/
theorem dispatch_step {c : Call} {recv : Receiver} {w w' : World}
    (h : dispatch c recv id w = .ok w') : Step w c w' := by
  rcases c with ⟨msg, op⟩
  cases op with
  | safeMint t question context a uri =>
      rcases safeMint_ok_iff.mp h with ⟨w₁, hm, hw⟩
      rcases mint_ok_iff.mp hm with ⟨hzero, hmax, hfree, rfl⟩
      rcases hw with ⟨_, rfl⟩ | ⟨_, _, rfl⟩
      · exact Step.safeMint (w := w) w.received hzero hmax hfree
      · exact Step.safeMint (w := w) (w.received ++ [⟨a, msg.sender, zeroAddress, t, []⟩])
          hzero hmax hfree
  | replyPrompt p r detail comment signature =>
      rcases replyPrompt_ok_iff.mp h with ⟨hadmin, rfl⟩
      exact Step.replyPrompt hadmin
  | burnReplies p r =>
      obtain rfl := Except.ok.inj ((burnReplies_eq p r _).symm.trans h)
      exact Step.burnReplies
  | burnPrompt p =>
      obtain rfl := Except.ok.inj ((burnPrompt_eq p _).symm.trans h)
      exact Step.burnPrompt
  | setTokenURI p uri =>
      rcases setTokenURI_ok_iff.mp h with ⟨howner, rfl⟩
      exact Step.setTokenURI howner

/-- Only the admin replies. -/
theorem Step.admin_of_reply {w w' : World} {c : Call} {p : Prompt} {r : Address}
    {detail comment signature : String} (hstep : Step w c w')
    (hop : c.op = .replyPrompt p r detail comment signature) : c.msg.sender = ADMIN := by
  cases hstep with
  | replyPrompt hadmin => exact hadmin
  | safeMint _ _ _ _ => cases hop
  | burnReplies => cases hop
  | burnPrompt => cases hop
  | setTokenURI _ => cases hop

/-! ## Field by field -/

/-- What holds of an entry before and of the value written holds of any entry
after the write. -/
theorem update_keeps {α β γ : Type} [DecidableEq α] {f : α → β} {a : α} {b : β} (g : β → γ)
    (h : g b = g (f a)) (x : α) : g (Function.update f a b x) = g (f x) := by
  by_cases hx : x = a
  · subst hx
    simpa using h
  · simp [hx]

/-- The owner of a slot after a call: mints and burns of the slot write it. -/
def World.ownerAfter (op : Op) (q : Prompt) (w : World) : Address :=
  match op with
  | .safeMint t _ _ a _ => if q = w.nextPrompt t then a else (w.prompt q).promptOwner
  | .burnPrompt p => if q = p then zeroAddress else (w.prompt q).promptOwner
  | _ => (w.prompt q).promptOwner

/-- The keys of a slot after a call: replies to it, burns of its replies and its
own burn write them. -/
def World.keysAfter (op : Op) (q : Prompt) (w : World) : List Address :=
  match op with
  | .replyPrompt p r _ _ _ => if q = p then (w.prompt q).keys ++ [r] else (w.prompt q).keys
  | .burnReplies p r =>
    if q = p then DynArray.swapErase (isKey r) (w.prompt q).keys else (w.prompt q).keys
  | .burnPrompt p => if q = p then [] else (w.prompt q).keys
  | _ => (w.prompt q).keys

/-- The record of a replier in a slot after a call: the burn of the prompt
leaves it in place. -/
def World.replyAfter (c : Call) (q : Prompt) (s : Address) (w : World) : ReplyInfo :=
  match c.op with
  | .replyPrompt p r detail comment signature =>
    if q = p ∧ s = r then ⟨detail, comment, signature, c.msg.timestamp⟩ else (w.prompt q).replies s
  | .burnReplies p r => if q = p ∧ s = r then ReplyInfo.blank else (w.prompt q).replies s
  | _ => (w.prompt q).replies s

/-- The list of a replier after a call: the burn of a prompt leaves it alone. -/
def World.repliedAfter (op : Op) (s : Address) (w : World) : List Prompt :=
  match op with
  | .replyPrompt p r _ _ _ =>
    if s = r then w.promptByReplier s ++ [p] else w.promptByReplier s
  | .burnReplies p r =>
    if s = r then DynArray.swapErase (isPrompt p) (w.promptByReplier s) else w.promptByReplier s
  | _ => w.promptByReplier s

section Fields

variable {w w' : World} {c : Call}

/-- A step notes its call. -/
theorem Step.calls_eq (h : Step w c w') : w'.calls = w.calls ++ [c] := by
  cases h <;> rfl

theorem Step.promptOwner_eq (h : Step w c w') (q : Prompt) :
    (w'.prompt q).promptOwner = w.ownerAfter c.op q := by
  cases h with
  | @safeMint msg t question context a uri rs hzero hmax hfree =>
      by_cases hq : q = w.nextPrompt t <;> simp [World.ownerAfter, hq]
  -- the slot is written, but not its owner
  | replyPrompt _ => exact update_keeps PromptInfo.promptOwner (by rfl) q
  | burnReplies => exact update_keeps PromptInfo.promptOwner (by rfl) q
  | @burnPrompt msg p =>
      by_cases hq : q = p <;> simp [World.ownerAfter, PromptInfo.delete, hq]
  | setTokenURI _ => exact update_keeps PromptInfo.promptOwner (by rfl) q

theorem Step.keys_eq (h : Step w c w') (q : Prompt) :
    (w'.prompt q).keys = w.keysAfter c.op q := by
  cases h with
  | safeMint _ _ _ _ => exact update_keeps PromptInfo.keys (by rfl) q
  | @replyPrompt msg p r detail comment signature hadmin =>
      by_cases hq : q = p <;> simp [World.keysAfter, hq]
  | @burnReplies msg p r => by_cases hq : q = p <;> simp [World.keysAfter, hq]
  | @burnPrompt msg p => by_cases hq : q = p <;> simp [World.keysAfter, PromptInfo.delete, hq]
  | setTokenURI _ => exact update_keeps PromptInfo.keys (by rfl) q

theorem Step.replies_eq (h : Step w c w') (q : Prompt) (s : Address) :
    (w'.prompt q).replies s = w.replyAfter c q s := by
  cases h with
  | safeMint _ _ _ _ => exact update_keeps (fun info : PromptInfo => info.replies s) (by rfl) q
  | @replyPrompt msg p r detail comment signature hadmin =>
      by_cases hq : q = p
      · subst hq
        by_cases hs : s = r <;> simp [World.replyAfter, hs]
      · simp [World.replyAfter, hq]
  | @burnReplies msg p r =>
      by_cases hq : q = p
      · subst hq
        by_cases hs : s = r <;> simp [World.replyAfter, hs]
      · simp [World.replyAfter, hq]
  | burnPrompt => exact update_keeps (fun info : PromptInfo => info.replies s) (by rfl) q
  | setTokenURI _ => exact update_keeps (fun info : PromptInfo => info.replies s) (by rfl) q

theorem Step.promptByReplier_eq (h : Step w c w') (s : Address) :
    w'.promptByReplier s = w.repliedAfter c.op s := by
  cases h with
  | safeMint _ _ _ _ => rfl
  | @replyPrompt msg p r detail comment signature hadmin =>
      by_cases hs : s = r <;> simp [World.repliedAfter, hs]
  | @burnReplies msg p r => by_cases hs : s = r <;> simp [World.repliedAfter, hs]
  | burnPrompt => rfl
  | setTokenURI _ => rfl

end Fields

/-! ## Linearisation -/

/-- The contract does all it does before it hands control out. -/
theorem effectsFirst : EffectsFirst dispatch := by
  rintro ⟨msg, op⟩ recv callback w w' h
  cases op with
  | safeMint t question context a uri =>
      rcases safeMint_ok_iff.mp h with ⟨w₁, hm, hw⟩
      rcases hw with ⟨hc, rfl⟩ | ⟨hc, ha, rfl⟩
      · -- no contract, no callback
        exact ⟨w', safeMint_ok_iff.mpr ⟨w', hm, Or.inl ⟨hc, rfl⟩⟩, Or.inl rfl⟩
      · exact ⟨_, safeMint_ok_iff.mpr ⟨w₁, hm, Or.inr ⟨hc, ha, rfl⟩⟩, Or.inr rfl⟩
  | replyPrompt p r detail comment signature => exact ⟨w', h, Or.inl rfl⟩
  | burnReplies p r => exact ⟨w', h, Or.inl rfl⟩
  | burnPrompt p => exact ⟨w', h, Or.inl rfl⟩
  | setTokenURI p uri => exact ⟨w', h, Or.inl rfl⟩

/-- The history grows by the call. -/
theorem calls_of_dispatch (w : World) (c : Call) (recv : Receiver) (w' : World)
    (h : dispatch c recv id w = .ok w') : w'.calls = w.calls ++ [c] :=
  (dispatch_step h).calls_eq

/-- The history lists the calls of a flat run. -/
theorem calls_of_steps {guard : Call → World → Prop} {w w' : World} {is : List (Call × Receiver)}
    (h : Steps dispatch guard w is w') : w'.calls = w.calls ++ is.map Prod.fst := by
  induction h with
  | nil w => simp
  | @cons w w₁ w' c recv is _ hr _ ih =>
      rw [ih, calls_of_dispatch _ _ _ _ hr]
      simp

/-! ## Observable worlds -/

/-- The worlds observable in runs from `w₀` whose calls meet the guard. -/
abbrev ReachableFrom (guard : Call → World → Prop) (w₀ w : World) : Prop :=
  ReachableBy dispatch guard w₀ w

/-- The worlds observable after deployment, when the calls made meet the guard. -/
abbrev ReachableVia (guard : Call → World → Prop) (w : World) : Prop :=
  ReachableFrom guard World.init w

/-- The worlds observable after deployment: any calls, by any senders, with any
arguments, nested in any way. -/
abbrev Reachable (w : World) : Prop :=
  ReachableVia (fun _ _ => True) w

variable {guard : Call → World → Prop} {w₀ w w' : World}

theorem ReachableVia.reachable (h : ReachableVia guard w) : Reachable w :=
  h.mono fun _ _ _ => trivial

/-- Invariant induction, on the steps of the contract. -/
theorem ReachableFrom.induction {P : World → Prop} (hinit : P w₀)
    (hstep : ∀ w c w', ReachableFrom guard w₀ w → P w → guard c w → Step w c w' → P w')
    (h : ReachableFrom guard w₀ w) : P w :=
  ReachableBy.invariant effectsFirst hinit
    (fun w c _ w' hr hP hg hx => hstep w c w' hr hP hg (dispatch_step hx)) h

/-- The world that a receiver sees when it is called is observable, whether the
mint survives or not. -/
theorem Reachable.callback (h : Reachable w) {msg : Msg} {t : ℕ} {question context : String}
    {a : Address} {uri : String}
    (hm : mint msg t question context a uri
      (w.record ⟨msg, .safeMint t question context a uri⟩) = .ok w') :
    Reachable (w'.receive ⟨a, msg.sender, zeroAddress, t, []⟩) := by
  have hx : dispatch ⟨msg, .safeMint t question context a uri⟩
      ⟨1, .returned onILyonPromptReceivedSelector⟩ id w =
        .ok (w'.receive ⟨a, msg.sender, zeroAddress, t, []⟩) :=
    safeMint_ok_iff.mpr ⟨w', hm, Or.inr ⟨rfl, rfl, rfl⟩⟩
  exact ReachableBy.step h trivial hx

/-! ## Concrete runs

Counterexamples and witnesses run calls by accounts without code. -/

/-- A call in which no other contract takes part. -/
def callTx (sender : Address) (timestamp : ℕ) (op : Op) : Tx :=
  .call ⟨⟨sender, timestamp⟩, op⟩ ⟨0, .undecodable⟩ []

theorem meets_callTx {sender : Address} {timestamp : ℕ} {op : Op}
    (h : guard ⟨⟨sender, timestamp⟩, op⟩ w) : Meets dispatch guard (callTx sender timestamp op) w :=
  ⟨h, fun _ _ => trivial⟩

/-- The world after the calls, made one after the other after deployment. -/
def worldAfter (txs : List Tx) : World :=
  execAll dispatch txs World.init

theorem reachableVia_worldAfter {txs : List Tx} (h : MeetsAll dispatch guard txs World.init) :
    ReachableVia guard (worldAfter txs) :=
  ReachableBy.init.execAll h

theorem reachable_worldAfter (txs : List Tx) : Reachable (worldAfter txs) :=
  reachableVia_worldAfter (meetsAll_true txs World.init)

def alice : Address := 0xa11ce
def bob : Address := 0xb0b
def carol : Address := 0xca401

/-- Alice mints a prompt, and Bob replies to it. -/
def mintAndReplyTxs : List Tx :=
  [callTx alice 1 (.safeMint 0 "q" "c" alice "u"),
    callTx ADMIN 2 (.replyPrompt ⟨0, 1⟩ bob "a" "" "")]

/-- The prompt is burned after the reply. -/
def burnRepliedTxs : List Tx :=
  mintAndReplyTxs ++ [callTx alice 3 (.burnPrompt ⟨0, 1⟩)]

end Yes3.LyonPrompt
