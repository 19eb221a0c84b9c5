import Mathlib.Logic.Relation
import Yes3.LyonPrompt.OwnerIndex

/-!
# Yes3.LyonPrompt.Lifecycle — the life of a slot

The abstract view of a slot is a phase: unminted, live, burned, in this order
and no other (`Phase.Next`). The contract stores no phase: it is read off the
owner and the mint counter (`World.phase`).

* `Step.phase` is the refinement: a call leaves the phase of a slot alone or
  moves it by one `Phase.Next`.
* `CallLaw` adds what a call may change in a slot, and on whose behalf.
* `soulbound_lifecycle` is the law of whole runs; in particular nothing revives
  a burned slot. It needs that no call is sent by the zero address, whose
  `setTokenURI` the owner check of an unowned slot would accept.
-/

namespace Yes3.LyonPrompt

open CallTree

/-! ## Phases -/

inductive Phase where
  | unminted
  | live
  | burned
deriving DecidableEq, Repr

/-- The moves of the abstract life cycle. -/
inductive Phase.Next : Phase → Phase → Prop where
  | mint : Next .unminted .live
  | burn : Next .live .burned

/-- The phase of a slot, as the storage encodes it. -/
def World.phase (p : Prompt) (w : World) : Phase :=
  if (w.prompt p).promptOwner ≠ zeroAddress then .live
  else if 1 ≤ p.id ∧ p.id ≤ w.currentIndex p.templateId then .burned
  else .unminted

section Phase

variable {w w' : World} {p : Prompt}

theorem phase_live (h : (w.prompt p).promptOwner ≠ zeroAddress) : w.phase p = .live := by
  simp [World.phase, h]

theorem phase_burned (h : (w.prompt p).promptOwner = zeroAddress) (hissued : w.Issued p) :
    w.phase p = .burned := by
  unfold World.Issued at hissued
  simp [World.phase, h, hissued]

theorem phase_unminted (h : (w.prompt p).promptOwner = zeroAddress) (hissued : ¬ w.Issued p) :
    w.phase p = .unminted := by
  unfold World.Issued at hissued
  simp [World.phase, h, hissued]

theorem phase_congr (howner : (w'.prompt p).promptOwner = (w.prompt p).promptOwner)
    (hindex : w'.Issued p ↔ w.Issued p) : w'.phase p = w.phase p := by
  unfold World.Issued at hindex
  simp only [World.phase, howner, hindex]

end Phase

/-- Nothing leaves the phase `burned`. -/
theorem Phase.burned_of_next {a b : Phase} (ha : a = .burned)
    (h : Relation.ReflTransGen Phase.Next a b) : b = .burned := by
  induction h with
  | refl => exact ha
  | tail _ hnext ih =>
      rw [ih] at hnext
      cases hnext

/-- **Refinement**: a call moves every slot along the abstract life cycle. -/
theorem Step.phase {w w' : World} {c : Call} (hstep : Step w c w') (hinv : OwnerInv w)
    (p : Prompt) : w'.phase p = w.phase p ∨ Phase.Next (w.phase p) (w'.phase p) := by
  have howner := hstep.promptOwner_eq p
  cases hstep with
  | @safeMint msg t question context a uri rs hzero hmax hfree =>
      by_cases hp : p = w.nextPrompt t
      · -- the new slot: unminted before, live after
        have hbefore : w.phase p = .unminted :=
          phase_unminted (hp ▸ hfree) (hp ▸ not_issued_nextPrompt t w)
        have hafter := (howner.trans (if_pos hp)).trans_ne hzero
        rw [hbefore, phase_live hafter]
        exact Or.inr Phase.Next.mint
      · refine Or.inl (phase_congr (howner.trans (if_neg hp)) ?_)
        -- the mint gives out one number, and that is not the number of this slot
        by_cases ht : p.templateId = t
        · have hid : p.id ≠ w.currentIndex t + 1 := by
            intro hid
            apply hp
            cases p
            simp_all [World.nextPrompt]
          simp only [World.Issued, World.minted, ht, Function.update_self]
          omega
        · simp [World.Issued, ht]
  | replyPrompt _ => exact Or.inl (phase_congr howner Iff.rfl)
  | burnReplies => exact Or.inl (phase_congr howner Iff.rfl)
  | @burnPrompt msg q =>
      by_cases hp : p = q
      · subst hp
        have hafter := howner.trans (if_pos rfl)
        by_cases hlive : (w.prompt p).promptOwner = zeroAddress
        · exact Or.inl (phase_congr (hafter.trans hlive.symm) Iff.rfl)
        · rw [phase_live hlive, phase_burned hafter (hinv.owned p hlive)]
          exact Or.inr Phase.Next.burn
      · exact Or.inl (phase_congr (howner.trans (if_neg hp)) Iff.rfl)
  | setTokenURI _ => exact Or.inl (phase_congr howner Iff.rfl)

/-! ## What a call may change in a slot -/

/-- The members that only a mint writes. -/
def PromptInfo.content (info : PromptInfo) : String × String × ℕ :=
  (info.question, info.context, info.createTime)

/-- What the call `c`, from `w` to `w'`, may change in the slot of `p`. -/
structure CallLaw (w : World) (c : Call) (w' : World) (p : Prompt) : Prop where
  /-- The slot stays in its phase or moves on by one. -/
  phase : w'.phase p = w.phase p ∨ Phase.Next (w.phase p) (w'.phase p)
  /-- The owner changes from zero to the recipient in the mint of this very id,
  or from the owner to zero in the burn of this very prompt. -/
  owner : (w'.prompt p).promptOwner ≠ (w.prompt p).promptOwner →
    ((∃ question context uri,
        c.op = .safeMint p.templateId question context (w'.prompt p).promptOwner uri) ∧
      (w.prompt p).promptOwner = zeroAddress ∧ totalSupply p.templateId w' = p.id) ∨
    (c.op = .burnPrompt p ∧ (w'.prompt p).promptOwner = zeroAddress)
  /-- While the prompt is live, its question, context and creation time stay. -/
  content : w.phase p = .live → w'.phase p = .live →
    (w'.prompt p).content = (w.prompt p).content
  /-- While the prompt is live, its URI changes by its owner's `setTokenURI` only. -/
  uri : w.phase p = .live → w'.phase p = .live → (w'.prompt p).SBTURI ≠ (w.prompt p).SBTURI →
    c.op = .setTokenURI p (w'.prompt p).SBTURI ∧ c.msg.sender = (w.prompt p).promptOwner

/-- Only the mint of a slot and its burn change its owner. -/
theorem Step.owner_law {w w' : World} {c : Call} (hstep : Step w c w') (p : Prompt)
    (hne : (w'.prompt p).promptOwner ≠ (w.prompt p).promptOwner) :
    ((∃ question context uri,
        c.op = .safeMint p.templateId question context (w'.prompt p).promptOwner uri) ∧
      (w.prompt p).promptOwner = zeroAddress ∧ totalSupply p.templateId w' = p.id) ∨
    (c.op = .burnPrompt p ∧ (w'.prompt p).promptOwner = zeroAddress) := by
  have howner := hstep.promptOwner_eq p
  cases hstep with
  | @safeMint msg t question context a uri rs hzero hmax hfree =>
      by_cases hp : p = w.nextPrompt t
      · subst hp
        rw [howner]
        refine Or.inl ⟨⟨question, context, uri, ?_⟩, hfree, ?_⟩
        · simp [World.ownerAfter, World.nextPrompt]
        · simp [totalSupply, World.nextPrompt]
      · exact absurd (howner.trans (if_neg hp)) hne
  | replyPrompt _ => exact absurd howner hne
  | burnReplies => exact absurd howner hne
  | @burnPrompt msg q =>
      by_cases hp : p = q
      · subst hp
        exact Or.inr ⟨rfl, howner.trans (if_pos rfl)⟩
      · exact absurd (howner.trans (if_neg hp)) hne
  | setTokenURI _ => exact absurd howner hne

/-- The write of one slot leaves another one, and a slot that is live on both
sides of a mint or a burn is another one. -/
theorem Step.live_law {w w' : World} {c : Call} (hstep : Step w c w') (p : Prompt)
    (hlive : (w.prompt p).promptOwner ≠ zeroAddress)
    (hlive' : (w'.prompt p).promptOwner ≠ zeroAddress) :
    (w'.prompt p).content = (w.prompt p).content ∧
    ((w'.prompt p).SBTURI ≠ (w.prompt p).SBTURI →
      c.op = .setTokenURI p (w'.prompt p).SBTURI ∧
      c.msg.sender = (w.prompt p).promptOwner) := by
  have howner := hstep.promptOwner_eq p
  cases hstep with
  | @safeMint msg t question context a uri rs hzero hmax hfree =>
      -- the slot that is minted had no owner
      have hp : p ≠ w.nextPrompt t := by
        intro hp
        exact hlive (hp ▸ hfree)
      simp [hp]
  | @replyPrompt msg q r detail comment signature hadmin =>
      refine ⟨update_keeps PromptInfo.content (by rfl) p, ?_⟩
      intro huri
      exact absurd (update_keeps PromptInfo.SBTURI (by rfl) p) huri
  | @burnReplies msg q r =>
      refine ⟨update_keeps PromptInfo.content (by rfl) p, ?_⟩
      intro huri
      exact absurd (update_keeps PromptInfo.SBTURI (by rfl) p) huri
  | @burnPrompt msg q =>
      -- the slot that is burned has no owner any more
      have hp : p ≠ q := by
        intro hp
        exact hlive' (howner.trans (if_pos hp))
      simp [hp]
  | @setTokenURI msg q uri hsender =>
      refine ⟨update_keeps PromptInfo.content (by rfl) p, ?_⟩
      intro huri
      by_cases hp : p = q
      · subst hp
        simpa using hsender
      · simp [hp] at huri

theorem live_of_phase {w : World} {p : Prompt} (h : w.phase p = .live) :
    (w.prompt p).promptOwner ≠ zeroAddress := by
  intro hzero
  by_cases hissued : w.Issued p
  · rw [phase_burned hzero hissued] at h
    cases h
  · rw [phase_unminted hzero hissued] at h
    cases h

theorem burned_of_phase {w : World} {p : Prompt} (h : w.phase p = .burned) :
    (w.prompt p).promptOwner = zeroAddress ∧ w.Issued p := by
  by_cases hzero : (w.prompt p).promptOwner = zeroAddress
  · refine ⟨hzero, ?_⟩
    by_contra hissued
    rw [phase_unminted hzero hissued] at h
    cases h
  · rw [phase_live hzero] at h
    cases h

theorem Step.callLaw {w w' : World} {c : Call} (hstep : Step w c w') (hinv : OwnerInv w)
    (p : Prompt) : CallLaw w c w' p where
  phase := hstep.phase hinv p
  owner := hstep.owner_law p
  content := fun h h' => (hstep.live_law p (live_of_phase h) (live_of_phase h')).1
  uri := fun h h' => (hstep.live_law p (live_of_phase h) (live_of_phase h')).2

/-! ## Unowned slots are blank -/

/-- The call is not sent by the zero address. -/
def SenderNonzero (c : Call) (_ : World) : Prop :=
  c.msg.sender ≠ zeroAddress

/-- No text, no URI, no creation time. -/
def PromptInfo.Blank (info : PromptInfo) : Prop :=
  info.content = ("", "", 0) ∧ info.SBTURI = ""

/-- Slots without an owner are blank. -/
def UnownedBlank (w : World) : Prop :=
  ∀ p, (w.prompt p).promptOwner = zeroAddress → (w.prompt p).Blank

theorem Step.unownedBlank {w w' : World} {c : Call} (hstep : Step w c w')
    (hsender : SenderNonzero c w) (h : UnownedBlank w) : UnownedBlank w' := by
  intro p hzero'
  have howner := hstep.promptOwner_eq p
  rw [hzero'] at howner
  cases hstep with
  | @safeMint msg t question context a uri rs hzero hmax hfree =>
      by_cases hp : p = w.nextPrompt t
      · exact absurd (howner.trans (if_pos hp)).symm hzero
      · simpa [hp] using h p (howner.trans (if_neg hp)).symm
  | @replyPrompt msg q r detail comment signature hadmin =>
      rcases h p howner.symm with ⟨hcontent, huri⟩
      exact ⟨(update_keeps PromptInfo.content (by rfl) p).trans hcontent,
        (update_keeps PromptInfo.SBTURI (by rfl) p).trans huri⟩
  | @burnReplies msg q r =>
      rcases h p howner.symm with ⟨hcontent, huri⟩
      exact ⟨(update_keeps PromptInfo.content (by rfl) p).trans hcontent,
        (update_keeps PromptInfo.SBTURI (by rfl) p).trans huri⟩
  | @burnPrompt msg q =>
      by_cases hp : p = q
      · subst hp
        simp [PromptInfo.Blank, PromptInfo.content, PromptInfo.delete]
      · simpa [hp] using h p (howner.trans (if_neg hp)).symm
  | @setTokenURI msg q uri howner' =>
      by_cases hp : p = q
      · -- the owner check would need the zero address as the sender
        subst hp
        exact absurd (howner'.trans howner.symm) hsender
      · simpa [hp] using h p howner.symm

theorem unownedBlank_of_reachable {w : World} (h : ReachableVia SenderNonzero w) :
    UnownedBlank w := by
  refine ReachableFrom.induction (P := UnownedBlank) ?_ ?_ h
  · intro p _
    exact ⟨rfl, rfl⟩
  · intro v c v' _ hP hg hs
    exact hs.unownedBlank hg hP

/-! ## Whole runs -/

/-- A single call by a sender other than zero, which keeps to the law in every slot. -/
def LawfulCall (w w' : World) : Prop :=
  ∃ c recv, c.msg.sender ≠ zeroAddress ∧ dispatch c recv id w = .ok w' ∧ ∀ p, CallLaw w c w' p

/-- A chain of lawful calls moves every slot along the abstract life cycle. -/
theorem phase_of_lawful {w w' : World} (h : Relation.ReflTransGen LawfulCall w w') (p : Prompt) :
    Relation.ReflTransGen Phase.Next (w.phase p) (w'.phase p) := by
  induction h with
  | refl => exact Relation.ReflTransGen.refl
  | tail _ hcall ih =>
      rcases hcall with ⟨c, recv, _, _, hlaw⟩
      rcases (hlaw p).phase with hsame | hnext
      · rw [hsame]
        exact ih
      · exact ih.tail hnext

/-- **The soulbound life cycle.** From an observable world to any later one,
whatever is called in between and however the calls are nested, there is a chain
of single calls that each keep to `CallLaw`. So every slot only moves along the
life cycle, and a slot that is burned stays burned and blank. -/
theorem soulbound_lifecycle {w w' : World} (h : ReachableVia SenderNonzero w)
    (hlater : ReachableFrom SenderNonzero w w') :
    Relation.ReflTransGen LawfulCall w w' ∧
    (∀ p, Relation.ReflTransGen Phase.Next (w.phase p) (w'.phase p)) ∧
    (∀ p, 1 ≤ p.id → p.id ≤ totalSupply p.templateId w →
      (w.prompt p).promptOwner = zeroAddress →
      (w.prompt p).Blank ∧ (w'.prompt p).promptOwner = zeroAddress ∧ (w'.prompt p).Blank) := by
  have hchain : Relation.ReflTransGen LawfulCall w w' := by
    refine ReachableBy.invariant effectsFirst Relation.ReflTransGen.refl ?_ hlater
    intro v c recv v' hv hP hsender hx
    have hinv : OwnerInv v := (ReachableVia.reachable (ReachableBy.trans h hv)).ownerInv
    exact hP.tail ⟨c, recv, hsender, hx, fun p => (dispatch_step hx).callLaw hinv p⟩
  have hphase := phase_of_lawful hchain
  refine ⟨hchain, hphase, ?_⟩
  intro p hpos hle hzero
  -- there is no way back from a burned phase
  have hburned : w'.phase p = .burned :=
    Phase.burned_of_next (phase_burned hzero ⟨hpos, hle⟩) (hphase p)
  have hzero' := (burned_of_phase hburned).1
  exact ⟨unownedBlank_of_reachable h p hzero, hzero',
    unownedBlank_of_reachable (ReachableBy.trans h hlater) p hzero'⟩

/-- A second mint under the template leaves the burned slot alone. -/
def secondMintTxs : List Tx :=
  [callTx bob 3 (.safeMint 0 "q" "c" bob "u")]

theorem soulbound_lifecycle_after_burn :
    ((execAll dispatch secondMintTxs (worldAfter mintAndBurnTxs)).prompt ⟨0, 1⟩).promptOwner =
      zeroAddress := by
  have hburned : ReachableVia SenderNonzero (worldAfter mintAndBurnTxs) :=
    reachableVia_worldAfter ⟨meets_callTx (show alice ≠ zeroAddress by decide),
      meets_callTx (show alice ≠ zeroAddress by decide), trivial⟩
  have hlater : ReachableFrom SenderNonzero (worldAfter mintAndBurnTxs)
      (execAll dispatch secondMintTxs (worldAfter mintAndBurnTxs)) :=
    ReachableBy.init.execAll ⟨meets_callTx (show bob ≠ zeroAddress by decide), trivial⟩
  exact ((soulbound_lifecycle hburned hlater).2.2 ⟨0, 1⟩ (by decide) (by decide +kernel)
    (by decide +kernel)).2.1

end Yes3.LyonPrompt
