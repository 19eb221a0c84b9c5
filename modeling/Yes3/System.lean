import Yes3.Rules.Beside
import Yes3.LyonPrompt.Reentrancy
import Yes3.LyonTemplate.Pending

/-!
# Yes3.System — the two contracts on one chain

The contracts do not call each other, but outside code calls both: the recipient of
a prompt may mint a template from inside the callback, and the minter of a template
may burn a prompt from inside that. So what is proved of either contract alone has
to be carried over to the chain on which both are deployed.

`contracts_are_independent` does so. Between two transactions the worlds of the
chain are the pairs of the worlds of the two contracts, whatever was nested in what;
and inside a callback of either contract, each of them is in a world that it could
be in alone.
-/

namespace Yes3.System

open CallTree

/-! ## The prompt contract, in its two phases -/

section Prompt

open LyonPrompt

variable {allowed : Call → Prop} {st : List (Call × Receiver)} {w w₁ : World}

/-- A mint that has come to its callback would succeed with a recipient that accepts
at once, and leave the world as the recipient finds it. -/
theorem accepted_of_out {c : Call} {recv : Receiver}
    (h : beforeCallback c recv w = .ok (.out w₁)) :
    dispatch c ⟨1, .returned onILyonPromptReceivedSelector⟩ id w = .ok w₁ := by
  rcases c with ⟨msg, op⟩
  cases op with
  | safeMint t question context a uri =>
      obtain ⟨w₀, hm, h⟩ := of_bind_ok h
      by_cases hc : isContract recv = true
      · rw [if_pos hc] at h
        obtain rfl := Stage.out.inj (Except.ok.inj h)
        exact safeMint_ok_iff.mpr ⟨w₀, hm, Or.inr ⟨rfl, rfl, rfl⟩⟩
      · rw [if_neg hc] at h
        cases Except.ok.inj h
  | _ =>
      obtain ⟨w₀, _, h⟩ := of_bind_ok h
      cases Except.ok.inj h

/-- The contract leaves nothing for after a callback, whoever may call it. -/
theorem deferrable_of (allowed : Call → Prop) :
    Deferrable phases (fun c _ => allowed c) noTail (fun _ _ => True) where
  after_eq := deferrable.after_eq
  ends := deferrable.ends
  done := fun _ _ _ _ _ _ _ _ => trivial
  enter := fun _ _ _ _ _ _ _ _ => trivial
  leave := fun _ _ _ _ _ => trivial
  commutes := by
    intro st w c recv w' _ hg h
    rw [unwind_noTail, unwind_noTail]
    exact ⟨hg, h⟩

/-- So where outside code runs, the contract is in a world that a flat run leads to. -/
theorem reachableVia_of_observed
    (h : phases.Observed (fun c _ => allowed c) World.init st w) :
    ReachableVia (fun c _ => allowed c) w := by
  induction h with
  | init => exact ReachableBy.init
  | exec t _ hm hx ih =>
      have hsteps := exec_survivors (deferrable_of allowed) t [] _ _ trivial hm hx
      exact hsteps.reachableBy ih
  | enter c recv _ hg hb ih => exact ih.step hg (accepted_of_out hb)

theorem observed_of_reachableVia (h : ReachableVia (fun c _ => allowed c) w) :
    phases.Observed (fun c _ => allowed c) World.init [] w := by
  obtain ⟨is, his⟩ := ReachableBy.steps effectsFirst h
  exact TwoPhase.Observed.init.steps his

end Prompt

/-! ## The chain -/

/-- The two contracts. -/
abbrev World := LyonPrompt.World × LyonTemplate.World

/-- A call of either. -/
abbrev Call := LyonPrompt.Call ⊕ LyonTemplate.Call

def init : World := (LyonPrompt.World.init, LyonTemplate.World.init)

/-- The chain, on which calls of the two contracts nest in any way. -/
def phases : TwoPhase (besideRun LyonPrompt.phases LyonTemplate.phases) :=
  beside LyonPrompt.phases LyonTemplate.phases

/-- The calls whose messages are allowed. -/
def guard (allowed : Msg → Prop) : Call → World → Prop :=
  besideGuard (fun c => allowed c.msg) (fun c => allowed c.msg)

/-- The worlds in which outside code runs, with the stack of the pending calls of
both contracts. -/
abbrev Observed (allowed : Msg → Prop) (st : List (Call × LyonPrompt.Receiver)) (w : World) :
    Prop :=
  phases.Observed (guard allowed) init st w

/-- The pending calls of the template contract. -/
def pendingTemplates (st : List (Call × LyonPrompt.Receiver)) :
    List (LyonTemplate.Call × LyonPrompt.Receiver) :=
  st.filterMap fun ik => rightCall ik.1 ik.2

/-- **The contracts are independent.** Between two transactions the worlds of the
chain are exactly the pairs of worlds that the contracts can be in alone; and inside
a callback, however deep and of whichever contract, each of the two is in a world
that it can be in alone, with its own pending calls. So every invariant of either
contract holds on the chain, and no run of the one keeps anything from the other. -/
theorem contracts_are_independent (allowed : Msg → Prop) :
    (∀ w, Observed allowed [] w ↔ LyonPrompt.ReachableVia (fun c _ => allowed c.msg) w.1 ∧
      LyonTemplate.ReachableVia (fun c _ => allowed c.msg) w.2) ∧
    ∀ st w, Observed allowed st w → LyonPrompt.ReachableVia (fun c _ => allowed c.msg) w.1 ∧
      LyonTemplate.ObservedFrom (fun c _ => allowed c.msg) LyonTemplate.World.init
        (pendingTemplates st) w.2 := by
  constructor
  · intro w
    refine observed_beside_iff.trans (and_congr_left' ?_)
    exact ⟨reachableVia_of_observed, observed_of_reachableVia⟩
  · intro st w h
    constructor
    · refine reachableVia_of_observed ((leftPart _ _).observed_view ?_ h)
      rintro (c | c) recv j l v ⟨⟩ hg
      exact hg
    · refine (rightPart _ _).observed_view ?_ h
      rintro (c | c) recv j l v ⟨⟩ hg
      exact hg

/-! ## A run -/

open LyonPrompt (alice bob)

/-- Alice mints a prompt to Bob's contract, which mints a template from inside the
callback, and burns the prompt from inside the callback of that. -/
def nestedTxs : List (Tree Call LyonPrompt.Receiver (Revert LyonPrompt.Error ⊕ Revert Empty)) :=
  [.call (.inl ⟨⟨alice, 1⟩, .safeMint 0 "q" "c" bob "u"⟩)
    ⟨1, .returned LyonPrompt.onILyonPromptReceivedSelector⟩
    [.call (.inr ⟨⟨bob, 1⟩, .mintTemplate "q" "c" "u"⟩)
      ⟨1, .returned LyonTemplate.onERC721ReceivedSelector⟩
      [.call (.inl ⟨⟨bob, 1⟩, .burnPrompt ⟨0, 1⟩⟩) ⟨0, .undecodable⟩ []]]]

def worldAfterNested : World :=
  execAll (besideRun LyonPrompt.phases LyonTemplate.phases) nestedTxs init

theorem contracts_are_independent_nested :
    LyonPrompt.Reachable worldAfterNested.1 ∧ LyonTemplate.Reachable worldAfterNested.2 := by
  have hguard : guard (fun _ => True) = fun _ _ => True := by
    funext c w
    cases c with
    | inl c => rfl
    | inr c => rfl
  have hobserved : Observed (fun _ => True) [] worldAfterNested := by
    unfold Observed
    rw [hguard]
    exact TwoPhase.Observed.init.execAll (phases.meetsAll_true nestedTxs init)
  exact (contracts_are_independent fun _ => True).2 [] _ hobserved

example : (worldAfterNested.1.prompt ⟨0, 1⟩).promptOwner = zeroAddress ∧
    worldAfterNested.1.currentIndex 0 = 1 ∧ worldAfterNested.2.owners 1 = bob := by
  decide +kernel

end Yes3.System
