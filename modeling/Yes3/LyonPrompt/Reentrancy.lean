import Yes3.Rules.Deferred
import Yes3.LyonPrompt.Exec

/-!
# Yes3.LyonPrompt.Reentrancy — nested calls are sequential calls

A mint calls its recipient, which may do anything, in particular call the
contract again. `phases` splits a call there: before the callback everything is
written, and what is left is the check of the answer. So a mint leaves no work
for later, the discipline `CallTree.Deferrable` holds with nothing to defer, and
a tree of nested calls is the flat run of its survivors.
-/

namespace Yes3.LyonPrompt

open CallTree

/-- A call up to the point where the recipient of a mint is called. -/
def beforeCallback (c : Call) (recv : Receiver) (w : World) : Except (Revert Error) (Stage World) :=
  match c.op with
  | .safeMint templateId question context toAddress SBTURI => do
    let w ← mint c.msg templateId question context toAddress SBTURI (w.record c)
    if isContract recv then
      return .out (w.receive ⟨toAddress, c.msg.sender, zeroAddress, templateId, []⟩)
    else
      return .done w
  | _ => do
    let w ← dispatch c recv id w
    return .done w

/-- The rest of a mint: the answer of the recipient decides whether it stands. -/
def afterCallback (_ : Call) (recv : Receiver) (w : World) : Except (Revert Error) World :=
  match recv.answer with
  | .returned retval => do
    require (retval = onILyonPromptReceivedSelector)
      "LyonPrompt: transfer to non LyonPromptReceiver implementer"
    return w
  | .reverted reason =>
    if reason.length = 0 then
      .error (.require "LyonPrompt: transfer to non LyonPromptReceiver implementer")
    else
      .error (.raw reason)
  | .undecodable => .error (.raw [])

/-- The external call with its check. -/
theorem checkOnILyonPromptReceived_eq (msg : Msg) (recv : Receiver) (f : World → World)
    (a : Address) (t : ℕ) (w : World) (c : Call) :
    (do
      let (accepted, w) ← checkOnILyonPromptReceived msg recv f zeroAddress a t [] w
      require (accepted = true) "LyonPrompt: transfer to non LyonPromptReceiver implementer"
      return w) =
    if isContract recv = true then
      afterCallback c recv (f (w.receive ⟨a, msg.sender, zeroAddress, t, []⟩))
    else .ok w := by
  unfold checkOnILyonPromptReceived afterCallback
  by_cases hc : isContract recv = true
  · rw [if_pos hc, if_pos hc]
    cases recv.answer with
    | returned retval => simp [bind, Except.bind]
    | undecodable => rfl
    | reverted reason =>
        by_cases hr : reason.length = 0
        · simp [hr, bind, Except.bind]
        · simp [hr, bind, Except.bind]
  · rw [if_neg hc, if_neg hc]
    rfl

/-- A call in its two phases. -/
theorem dispatch_eq_phases (c : Call) (recv : Receiver) (f : World → World) (w : World) :
    dispatch c recv f w = Stage.finish f (afterCallback c recv) (beforeCallback c recv w) := by
  -- all calls but mints are over before the callback
  have hdone := fun r : Result World => (Stage.finish_done f (afterCallback c recv) r).symm
  rcases c with ⟨msg, op⟩
  cases op with
  | safeMint t question context a uri =>
      unfold dispatch safeMint beforeCallback
      generalize World.record _ w = w'
      cases hm : mint msg t question context a uri w' with
      | error e => simp only [hm, bind, Except.bind, Stage.finish]
      | ok w₁ =>
          simp only [hm, bind_of_ok rfl]
          refine (checkOnILyonPromptReceived_eq msg recv f a t w₁
            ⟨msg, .safeMint t question context a uri⟩).trans ?_
          exact (Stage.finish_ite f _ (isContract recv = true) _ _).symm
  | replyPrompt p r detail comment signature => exact hdone _
  | burnReplies p r => exact hdone _
  | burnPrompt p => exact hdone _
  | setTokenURI p uri => exact hdone _

/-- The contract in two phases. -/
def phases : TwoPhase dispatch where
  before := beforeCallback
  after := afterCallback
  run_eq := dispatch_eq_phases

/-! ## Nothing is left for later -/

/-- A call leaves no work for after its callback. -/
def noTail (_ : Call) (_ : Receiver) (w : World) : World := w

theorem unwind_noTail (st : List (Call × Receiver)) (w : World) : unwind noTail st w = w := by
  induction st with
  | nil => rfl
  | cons ik st ih => exact ih

/-- Only the selector lets a mint stand. -/
theorem afterCallback_ok_iff (c : Call) {recv : Receiver} {w w' : World} :
    afterCallback c recv w = .ok w' ↔
      recv.answer = .returned onILyonPromptReceivedSelector ∧ w' = w := by
  unfold afterCallback
  cases recv.answer with
  | returned retval =>
      by_cases hv : retval = onILyonPromptReceivedSelector
      · simp [hv, pure, Except.pure, eq_comm]
      · simp [hv, require, Functor.map, Except.map]
  | undecodable => simp
  | reverted reason => by_cases hr : reason.length = 0 <;> simp [hr]

/-- The discipline, with nothing to defer. -/
theorem deferrable : Deferrable phases (fun _ _ => True) noTail (fun _ _ => True) where
  after_eq := fun c _ _ _ h => ((afterCallback_ok_iff c).mp h).2
  ends := fun c _ _ _ _ h =>
    (afterCallback_ok_iff c).mpr ⟨((afterCallback_ok_iff c).mp h).1, rfl⟩
  done := fun _ _ _ _ _ _ _ _ => trivial
  enter := fun _ _ _ _ _ _ _ _ => trivial
  leave := fun _ _ _ _ _ => trivial
  commutes := by
    intro st w c recv w' _ _ h
    rw [unwind_noTail, unwind_noTail]
    exact ⟨trivial, h⟩

/-! ## The theorem -/

/-- **Nested calls are harmless.** Whatever the recipients of the mints do, and
however deep, the world after a list of executions, its storage and its events,
is the world after a flat sequence of calls that all succeed: the calls that
were not undone, each mint before the calls made by its recipient. A mint whose
recipient is a contract and answers anything but the selector leaves the world
as it was, with everything done inside. -/
theorem reentrancy_is_harmless (w : World) (txs : List Tx) :
    Steps dispatch (fun _ _ => True) w (phases.survivorsAll txs w) (execAll dispatch txs w) ∧
    (execAll dispatch txs w).calls = w.calls ++ (phases.survivorsAll txs w).map Prod.fst ∧
    ∀ msg t question context a uri recv body, isContract recv = true →
      recv.answer ≠ .returned onILyonPromptReceivedSelector →
      settle w (exec dispatch (.call ⟨msg, .safeMint t question context a uri⟩ recv body) w) = w ∧
      phases.survivors (.call ⟨msg, .safeMint t question context a uri⟩ recv body) w = [] := by
  have hsteps := execAll_survivors deferrable txs [] w trivial (phases.meetsAll_true txs w)
  refine ⟨hsteps, calls_of_steps hsteps, ?_⟩
  intro msg t question context a uri recv body hc hanswer
  -- the mint fails with its callback, and what was done until then is undone
  have hfail : ∃ e, exec dispatch
      (.call ⟨msg, .safeMint t question context a uri⟩ recv body) w = .error e := by
    cases hx : exec dispatch (.call ⟨msg, .safeMint t question context a uri⟩ recv body) w with
    | error e => exact ⟨e, rfl⟩
    | ok w' =>
        rw [exec] at hx
        rcases safeMint_ok_iff.mp hx with ⟨w₁, _, ⟨hc', _⟩ | ⟨_, hanswer', _⟩⟩
        · rw [hc] at hc'
          cases hc'
        · exact absurd hanswer' hanswer
  rcases hfail with ⟨e, he⟩
  rw [TwoPhase.survivors, he]
  exact ⟨rfl, rfl⟩

/-- Bob's callback mints to a contract of Carol's, which burns Bob's prompt, and
then again to Carol, who refuses. -/
def deepTxs : List Tx :=
  [.call ⟨⟨alice, 1⟩, .safeMint 5 "q" "c" bob "u"⟩ ⟨1, .returned onILyonPromptReceivedSelector⟩
    [.call ⟨⟨bob, 1⟩, .safeMint 5 "q" "c" carol "u"⟩ ⟨1, .returned onILyonPromptReceivedSelector⟩
      [callTx carol 1 (.burnPrompt ⟨5, 1⟩)],
     .call ⟨⟨bob, 1⟩, .safeMint 5 "q" "c" carol "u"⟩ ⟨1, .returned 0⟩
      [callTx carol 1 (.burnPrompt ⟨5, 2⟩)]]]

theorem reentrancy_is_harmless_deep :
    Steps dispatch (fun _ _ => True) World.init (phases.survivorsAll deepTxs World.init)
      (worldAfter deepTxs) ∧
    (worldAfter deepTxs).calls =
      (phases.survivorsAll deepTxs World.init).map Prod.fst ∧
    settle (worldAfter deepTxs) (exec dispatch (.call ⟨⟨bob, 2⟩, .safeMint 5 "q" "c" carol "u"⟩
      ⟨1, .undecodable⟩ deepTxs) (worldAfter deepTxs)) = worldAfter deepTxs :=
  have h := reentrancy_is_harmless World.init deepTxs
  have h' := reentrancy_is_harmless (worldAfter deepTxs) []
  ⟨h.1, h.2.1, (h'.2.2 ⟨bob, 2⟩ 5 "q" "c" carol "u" ⟨1, .undecodable⟩ deepTxs rfl
    (by decide)).1⟩

example : (phases.survivorsAll deepTxs World.init).map Prod.fst =
    [⟨⟨alice, 1⟩, .safeMint 5 "q" "c" bob "u"⟩, ⟨⟨bob, 1⟩, .safeMint 5 "q" "c" carol "u"⟩,
      ⟨⟨carol, 1⟩, .burnPrompt ⟨5, 1⟩⟩] := by decide +kernel

end Yes3.LyonPrompt
