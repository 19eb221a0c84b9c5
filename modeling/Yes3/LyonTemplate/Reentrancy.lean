import Yes3.LyonTemplate.Pending

/-!
# Yes3.LyonTemplate.Reentrancy — nested calls are sequential calls

A mint leaves work for after its callback, so nesting is not harmless by itself.
It is harmless because of what the callback cannot do: no second mint gets
through while one is pending, and nobody can set the URI of the pending token.
Everything else that a callback can do commutes with the work that is left. So
`CallTree.Deferrable` holds, and a tree of nested calls is the flat run of its
survivors.
-/

namespace Yes3.LyonTemplate

open CallTree
open LyonPrompt (Receiver alice bob)

/-- The call is not sent by the zero address. -/
def SenderNonzero (c : Call) (_ : World) : Prop :=
  c.msg.sender ≠ zeroAddress

/-- A call that succeeds while mints are pending also succeeds after they are
finished, with the same effect. -/
theorem Good.commutes {st : List (Call × Receiver)} {w w' : World} {c : Call} {recv : Receiver}
    (hgood : Good st w) (hsender : SenderNonzero c w) (h : dispatch c recv id w = .ok w') :
    dispatch c recv id (unwind tail st w) = .ok (unwind tail st w') := by
  by_cases hpending : pendingMints st = []
  · rw [unwind_of_no_pending hpending, unwind_of_no_pending hpending]
    exact h
  · rcases hgood.pending hpending with ⟨hexists, hrecord⟩
    rcases hgood.unwind_of_pending hpending with ⟨msg, question, context, uri, _, hunwind⟩
    rw [hunwind, hunwind]
    -- the same call, made in the world in which the mint is finished
    have hcommutes : ∀ p, beforeCallback c recv w = .ok p →
        beforeCallback c recv (w.logged msg question context uri) =
          .ok (p.map (World.logged msg question context uri)) := by
      intro p hp
      rcases beforeCallback_logged hexists hrecord hp msg question context uri with
        hcommutes | ⟨_, _, hzero, _⟩
      · exact hcommutes
      · exact absurd hzero hsender
    rw [phases.run_eq]
    change Stage.finish id (afterCallback c recv) (beforeCallback c recv _) = _
    rcases phases.of_run_ok h with hdone | ⟨w₁, hout, hafter⟩
    · rw [hcommutes _ hdone]
      rfl
    · rw [hcommutes _ hout]
      have hc := not_mints_of_pending hexists hout
      rcases afterCallback_ok_iff.mp hafter with ⟨hanswer, rfl⟩
      refine afterCallback_ok_iff.mpr ⟨hanswer, ?_⟩
      rw [tail_of_not_mints hc, tail_of_not_mints hc]
      rfl

/-- The discipline: the second half of a mint may be done at once. -/
theorem deferrable : Deferrable phases SenderNonzero tail Good where
  after_eq := fun _ _ _ _ h => (afterCallback_ok_iff.mp h).2
  ends := fun _ _ _ _ _ h => afterCallback_ok_iff.mpr ⟨(afterCallback_ok_iff.mp h).1, rfl⟩
  done := fun _ _ _ _ _ hgood _ h => hgood.done h
  enter := fun _ _ _ _ _ hgood _ h => hgood.enter h
  leave := fun _ _ _ _ hgood => hgood.finished
  commutes := fun _ _ _ _ _ hgood hsender h => ⟨hsender, hgood.commutes hsender h⟩

/-- No mint gets through where one is pending. -/
theorem Good.mint_fails {st : List (Call × Receiver)} {w : World} (hgood : Good st w)
    (hpending : pendingMints st ≠ []) {c : Call} (hc : c.mints = true) (recv : Receiver)
    (f : World → World) : ∃ e, dispatch c recv f w = .error e := by
  cases h : dispatch c recv f w with
  | error e => exact ⟨e, rfl⟩
  | ok w' =>
      have hexists := (hgood.pending hpending).1
      rcases phases.of_run_ok h with hdone | ⟨w₁, hout, _⟩
      · exact absurd hc (by simp [not_mints_of_pending hexists hdone])
      · exact absurd hc (by simp [not_mints_of_pending hexists hout])

/-- **Nested calls linearise.** From any world between two calls, whatever the
receivers of tokens do when they are called, and however deep, as long as no call
is sent by the zero address: the world after a list of executions is the world
after a flat sequence of calls that all succeed, namely of those that were not
undone, each mint before the calls made by its minter. In particular a mint that
is made while another one is pending fails. -/
theorem nested_calls_linearise {w : World} (h : ReachableVia SenderNonzero w) (txs : List Tx)
    (hsenders : phases.MeetsAll SenderNonzero txs w) :
    Steps dispatch SenderNonzero w (phases.survivorsAll txs w) (execAll dispatch txs w) ∧
    ∀ st v, ObservedFrom SenderNonzero w st v → (∃ ik ∈ st, ik.1.mints = true) →
      ∀ c recv f, c.mints = true → ∃ e, dispatch c recv f v = .error e := by
  have hgood : Good [] w := ReachableFrom.good good_init h
  constructor
  · exact execAll_survivors deferrable txs [] w hgood hsenders
  · rintro st v hv ⟨ik, hik, hmints⟩ c recv f hc
    have hgoodv := TwoPhase.Observed.invariant deferrable.toPreserved hgood hv
    refine hgoodv.mint_fails ?_ hc recv f
    intro hnone
    have hmem : ik ∈ pendingMints st := List.mem_filter.mpr ⟨hik, hmints⟩
    rw [hnone] at hmem
    cases hmem

theorem nested_calls_linearise_reentrant :
    Steps dispatch SenderNonzero World.init (phases.survivorsAll reentrantTxs World.init)
      (worldAfter reentrantTxs) := by
  have halice : alice ≠ zeroAddress := by decide
  have hbob : bob ≠ zeroAddress := by decide
  have hsenders : phases.MeetsAll SenderNonzero reentrantTxs World.init :=
    ⟨fun _ => ⟨halice, fun _ _ => ⟨fun _ => ⟨halice, fun _ _ => trivial⟩,
      fun _ => ⟨halice, fun _ _ => trivial⟩, trivial⟩⟩,
      fun _ => ⟨hbob, fun _ _ => trivial⟩, trivial⟩
  exact (nested_calls_linearise TwoPhase.Observed.init reentrantTxs hsenders).1

example : (phases.survivorsAll reentrantTxs World.init).map Prod.fst =
    [⟨⟨alice, 1⟩, .mintTemplate "q" "c" "u"⟩, ⟨⟨alice, 1⟩, .transferFrom alice bob 1⟩,
      ⟨⟨bob, 2⟩, .mintTemplate "q" "c" "w"⟩] := by decide +kernel

end Yes3.LyonTemplate
