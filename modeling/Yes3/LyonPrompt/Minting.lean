import Mathlib.Data.List.Enum
import Yes3.LyonPrompt.OwnerIndex

/-!
# Yes3.LyonPrompt.Minting — allocation of ids

The id of a prompt is the pre-incremented counter of its template, and the
counter is never decremented. So the counter counts the mints that took effect,
nested ones included and rolled-back ones not, and the ids under a template are
`1, 2, 3, ...` in the order of the mints. The history `World.calls` and the
event log say in which order that was.
-/

namespace Yes3.LyonPrompt

/-- The recipient, if the call is a mint under the template. -/
def mintOf (t : ℕ) (c : Call) : Option Address :=
  match c.op with
  | .safeMint t' _ _ a _ => if t' = t then some a else none
  | _ => none

/-- The recipients of the mints under a template, in the order of the mints. -/
def mintsUnder (t : ℕ) (w : World) : List Address :=
  w.calls.filterMap (mintOf t)

/-- The recipient and the id, if the event announces a mint under the template. -/
def mintedAs (t : ℕ) : Event → Option (Address × ℕ)
  | .promptMinted t' id a => if t' = t then some (a, id) else none
  | .repliedToPrompt .. => none

/-- The recipients and ids announced under a template, in the order of the events. -/
def mintedUnder (t : ℕ) (w : World) : List (Address × ℕ) :=
  w.events.filterMap (mintedAs t)

/-- The prompt that the event announces. -/
def announces : Event → Option Prompt
  | .promptMinted t id _ => some ⟨t, id⟩
  | .repliedToPrompt .. => none

/-- The prompts announced so far. -/
def announced (w : World) : List Prompt :=
  w.events.filterMap announces

/-! ## The invariant -/

structure MintInv (w : World) : Prop where
  /-- The counter counts the mints. -/
  counter : ∀ t, w.currentIndex t = (mintsUnder t w).length
  /-- The counter is a `uint256`. -/
  max : ∀ t, w.currentIndex t < 2 ^ 256
  /-- The `k`-th mint was given the id `k`. -/
  ids : ∀ t, mintedUnder t w = (mintsUnder t w).zipIdx 1
  /-- Only ids given out are announced. -/
  issued : ∀ p ∈ announced w, w.Issued p
  /-- No prompt is announced twice. -/
  nodup : (announced w).Nodup

theorem mintInv_init : MintInv World.init where
  counter := fun _ => rfl
  max := fun _ => Nat.two_pow_pos 256
  ids := fun _ => rfl
  issued := fun _ hp => absurd hp List.not_mem_nil
  nodup := List.nodup_nil

/-- A call that neither mints nor announces a mint keeps the invariant. -/
theorem MintInv.of_quiet {w w' : World} (h : MintInv w)
    (hindex : w'.currentIndex = w.currentIndex)
    (hmints : ∀ t, mintsUnder t w' = mintsUnder t w)
    (hminted : ∀ t, mintedUnder t w' = mintedUnder t w)
    (hannounced : announced w' = announced w) : MintInv w' where
  counter := fun t => by rw [hindex, hmints, h.counter]
  max := fun t => by rw [hindex]; exact h.max t
  ids := fun t => by rw [hminted, hmints, h.ids]
  issued := fun p hp => by
    rw [hannounced] at hp
    simpa [World.Issued, hindex] using h.issued p hp
  nodup := by rw [hannounced]; exact h.nodup

/-- A mint under `t` keeps the invariant: under `t` everything grows by one
entry at the end, and under the other templates nothing changes. -/
theorem Step.mintInv_safeMint {w w' : World} {msg : Msg} {t : ℕ} {question context : String}
    {a : Address} {uri : String}
    (hstep : Step w ⟨msg, .safeMint t question context a uri⟩ w') (h : MintInv w) :
    MintInv w' := by
  have hmono : ∀ p, w.Issued p → w'.Issued p := by
    intro p hp
    exact hstep.issued hp
  cases hstep with
  | safeMint rs hzero hmax hfree =>
      constructor
      case counter =>
        intro u
        by_cases hu : t = u
        · subst hu
          simp [mintsUnder, mintOf, h.counter]
        · simpa [mintsUnder, mintOf, hu, Ne.symm hu] using h.counter u
      case max =>
        intro u
        by_cases hu : u = t
        · subst hu
          simpa using hmax
        · simpa [hu] using h.max u
      case ids =>
        intro u
        have hids := h.ids u
        have hcount := h.counter u
        simp only [mintedUnder, mintsUnder] at hids hcount
        by_cases hu : t = u
        · subst hu
          simp [mintedUnder, mintsUnder, mintedAs, mintOf, List.zipIdx_append, hids, hcount,
            Nat.add_comm]
        · simp [mintedUnder, mintsUnder, mintedAs, mintOf, hu, hids]
      case issued =>
        intro p hp
        have hp' : p ∈ announced w ∨ p = w.nextPrompt t := by
          simpa [announced, announces, World.nextPrompt] using hp
        rcases hp' with hold | rfl
        · exact hmono p (h.issued p hold)
        · exact issued_minted_next msg t question context a uri w
      case nodup =>
        -- the announced prompt is new because its id has not been given out
        have hnew : w.nextPrompt t ∉ announced w := by
          intro hp
          exact not_issued_nextPrompt t w (h.issued _ hp)
        have happ : (announced w ++ [w.nextPrompt t]).Nodup := by
          rw [List.nodup_append]
          refine ⟨h.nodup, List.nodup_singleton _, ?_⟩
          intro q hq q' hq' hqq'
          rw [List.mem_singleton.mp hq'] at hqq'
          exact hnew (hqq' ▸ hq)
        simpa [announced, announces, World.nextPrompt] using happ

/-- Every call keeps the invariant. -/
theorem Step.mintInv {w w' : World} {c : Call} (hstep : Step w c w') (h : MintInv w) :
    MintInv w' := by
  rcases c with ⟨msg, op⟩
  cases op with
  | safeMint t question context a uri => exact hstep.mintInv_safeMint h
  | replyPrompt p r detail comment signature =>
      -- the event of a reply announces no mint
      cases hstep
      refine h.of_quiet rfl ?_ ?_ ?_
      · intro t
        simp [mintsUnder, mintOf]
      · intro t
        simp [mintedUnder, mintedAs]
      · simp [announced, announces]
  | burnReplies p r =>
      cases hstep
      exact h.of_quiet rfl (fun t => by simp [mintsUnder, mintOf]) (fun _ => rfl) rfl
  | burnPrompt p =>
      cases hstep
      exact h.of_quiet rfl (fun t => by simp [mintsUnder, mintOf]) (fun _ => rfl) rfl
  | setTokenURI p uri =>
      cases hstep
      exact h.of_quiet rfl (fun t => by simp [mintsUnder, mintOf]) (fun _ => rfl) rfl

/-- The invariant holds in every observable world. -/
theorem Reachable.mintInv {w : World} (h : Reachable w) : MintInv w :=
  ReachableFrom.induction mintInv_init (fun _ _ _ _ hi _ hs => hs.mintInv hi) h

/-! ## The mint in a reachable world -/

/-- The outcome of `_mint` when the next slot is free: the second `require`
passes, and what is left are the zero address and the counter. -/
theorem mint_of_free {w : World} {t : ℕ}
    (hfree : (w.prompt (w.nextPrompt t)).promptOwner = zeroAddress) (msg : Msg)
    (question context : String) (a : Address) (uri : String) :
    mint msg t question context a uri w =
      if a = zeroAddress then .error (.require "LyonPrompt: mint to the zero address")
      else if w.currentIndex t + 1 < 2 ^ 256 then .ok (w.minted msg t question context a uri)
      else .error (.panic 0x11) := by
  by_cases hzero : a = zeroAddress
  · simp [mint, hzero]
  · by_cases hmax : w.currentIndex t + 1 < 2 ^ 256
    · rw [if_neg hzero, if_pos hmax]
      exact mint_ok_iff.mpr ⟨hzero, hmax, hfree, rfl⟩
    · rw [if_neg hzero, if_neg hmax]
      unfold mint
      rw [require_bind_of_pos hzero, checkedIncr_bind_of_max hmax]

/-- **Id allocation.** In every observable world: the counter of a template is
the number of mints under it, and the `k`-th of them was announced with the id
`k`; no prompt was announced twice; the slots outside `1, ..., counter` have no
owner; so `_mint` never finds the prompt already minted, and to a non-zero
address it fails only when the counter is at its maximum. -/
theorem id_allocation {w : World} (h : Reachable w) :
    (∀ t, totalSupply t w = (mintsUnder t w).length ∧
      mintedUnder t w = (mintsUnder t w).zipIdx 1) ∧
    (announced w).Nodup ∧
    (∀ t id, id = 0 ∨ totalSupply t w < id → (w.prompt ⟨t, id⟩).promptOwner = zeroAddress) ∧
    (∀ msg t question context a uri, mint msg t question context a uri w ≠
      .error (.require "LyonPrompt: prompt already minted")) ∧
    (∀ msg t question context a uri, a ≠ zeroAddress →
      ((∃ e, mint msg t question context a uri w = .error e) ↔
        totalSupply t w = 2 ^ 256 - 1)) := by
  have hmint := h.mintInv
  have hfree : ∀ t id, id = 0 ∨ totalSupply t w < id →
      (w.prompt ⟨t, id⟩).promptOwner = zeroAddress := by
    intro t id hid
    by_contra hne
    have hissued := h.ownerInv.owned ⟨t, id⟩ hne
    simp only [World.Issued] at hissued
    unfold totalSupply at hid
    omega
  have hnext : ∀ t, (w.prompt (w.nextPrompt t)).promptOwner = zeroAddress := by
    intro t
    exact hfree t _ (Or.inr (Nat.lt_succ_self _))
  refine ⟨?_, hmint.nodup, hfree, ?_, ?_⟩
  · intro t
    exact ⟨hmint.counter t, hmint.ids t⟩
  · intro msg t question context a uri
    rw [mint_of_free (hnext t)]
    split
    · simp
    · split <;> simp
  · intro msg t question context a uri hzero
    -- the slot is free and the address is not zero, so only the counter can refuse
    have hmax := hmint.max t
    rw [mint_of_free (hnext t), if_neg hzero]
    unfold totalSupply
    split
    · simp
      omega
    · simp
      omega

/-- A mint to a contract whose callback mints again under the same template and
then burns the prompt of the outer mint, and a mint that the receiver refuses. -/
def nestedMintTxs : List Tx :=
  [.call ⟨⟨alice, 1⟩, .safeMint 5 "q" "c" bob "u"⟩ ⟨1, .returned onILyonPromptReceivedSelector⟩
    [callTx bob 1 (.safeMint 5 "q" "c" alice "u"), callTx bob 1 (.burnPrompt ⟨5, 1⟩)],
   .call ⟨⟨alice, 2⟩, .safeMint 5 "q" "c" bob "u"⟩ ⟨1, .reverted []⟩
    [callTx bob 2 (.safeMint 5 "q" "c" alice "u")]]

theorem id_allocation_nested :
    totalSupply 5 (worldAfter nestedMintTxs) = (mintsUnder 5 (worldAfter nestedMintTxs)).length ∧
    mintedUnder 5 (worldAfter nestedMintTxs) =
      (mintsUnder 5 (worldAfter nestedMintTxs)).zipIdx 1 :=
  (id_allocation (reachable_worldAfter nestedMintTxs)).1 5

example : mintedUnder 5 (worldAfter nestedMintTxs) = [(bob, 1), (alice, 2)] := by decide +kernel

end Yes3.LyonPrompt
