import Mathlib.Data.List.Perm.Basic
import Yes3.Rules.Unwinding
import Yes3.LyonPrompt.OwnerIndex
import Yes3.LyonPrompt.Tally

/-!
# Yes3.LyonPrompt.Isolation — templates do not interfere

The slots are kept apart by template, but the lists of owners and repliers are
shared by all templates, and `burnPrompt` compares ids only. Still, what a user
of one template can see depends on the calls that name the template alone.

`AgreeOn t` is the view of such a user, and `unwinding` checks the conditions of
`CallTree.Unwinding` for it, call by call. The owner lists take part through
`OwnerInv`: the only list that a burn walks is the empty one.
-/

namespace Yes3.LyonPrompt

open CallTree

/-- The template that a call names. -/
def Op.templateId : Op → ℕ
  | .safeMint templateId _ _ _ _ => templateId
  | .replyPrompt promptId _ _ _ _ => promptId.templateId
  | .burnReplies promptId _ => promptId.templateId
  | .burnPrompt promptId => promptId.templateId
  | .setTokenURI tokenId _ => tokenId.templateId

/-- The call names the template. -/
def namesTemplate (t : ℕ) (c : Call) : Bool := c.op.templateId = t

/-- Two worlds that look the same to a user of the template. -/
structure AgreeOn (t : ℕ) (w v : World) : Prop where
  supply : w.currentIndex t = v.currentIndex t
  prompt : ∀ id, w.prompt ⟨t, id⟩ = v.prompt ⟨t, id⟩
  /-- The owner lists have the same entries under the template, in any order. -/
  owned : ∀ a id, (w.promptByOwner a).count ⟨t, id⟩ = (v.promptByOwner a).count ⟨t, id⟩
  /-- So have the lists of the repliers. -/
  replied : ∀ r id, (w.promptByReplier r).count ⟨t, id⟩ = (v.promptByReplier r).count ⟨t, id⟩

theorem agreeOn_equivalence (t : ℕ) : Equivalence (AgreeOn t) where
  refl := fun _ => ⟨rfl, fun _ => rfl, fun _ _ => rfl, fun _ _ => rfl⟩
  symm := fun h => ⟨h.supply.symm, fun id => (h.prompt id).symm, fun a id => (h.owned a id).symm,
    fun r id => (h.replied r id).symm⟩
  trans := fun h h' => ⟨h.supply.trans h'.supply, fun id => (h.prompt id).trans (h'.prompt id),
    fun a id => (h.owned a id).trans (h'.owned a id),
    fun r id => (h.replied r id).trans (h'.replied r id)⟩

/-! ## What a call does to one template -/

/-- The counter of a template after a call. -/
def World.indexAfter (op : Op) (t : ℕ) (w : World) : ℕ :=
  match op with
  | .safeMint t' _ _ _ _ => if t = t' then w.currentIndex t + 1 else w.currentIndex t
  | _ => w.currentIndex t

/-- A slot after a call, all members at once. -/
def World.slotAfter (c : Call) (q : Prompt) (w : World) : PromptInfo :=
  match c.op with
  | .safeMint t question context a uri =>
    if q = w.nextPrompt t then
      { w.prompt q with
        promptOwner := a
        question := question
        context := context
        createTime := c.msg.timestamp
        SBTURI := uri }
    else w.prompt q
  | .replyPrompt p r detail comment signature =>
    if q = p then
      { w.prompt q with
        replies := Function.update (w.prompt q).replies r
          ⟨detail, comment, signature, c.msg.timestamp⟩
        keys := (w.prompt q).keys ++ [r] }
    else w.prompt q
  | .burnReplies p r =>
    if q = p then
      { w.prompt q with
        replies := Function.update (w.prompt q).replies r ReplyInfo.blank
        keys := DynArray.swapErase (isKey r) (w.prompt q).keys }
    else w.prompt q
  | .burnPrompt p => if q = p then (w.prompt q).delete else w.prompt q
  | .setTokenURI p uri => if q = p then { w.prompt q with SBTURI := uri } else w.prompt q

/-- How often a prompt is in the list of an owner after a call. -/
def World.ownedAfter (op : Op) (a : Address) (p : Prompt) (w : World) : ℕ :=
  match op with
  | .safeMint t _ _ b _ =>
    if a = b ∧ p = w.nextPrompt t then (w.promptByOwner a).count p + 1
    else (w.promptByOwner a).count p
  | _ => (w.promptByOwner a).count p

section Laws

variable {w w' : World} {c : Call}

theorem Step.currentIndex_eq (h : Step w c w') (t : ℕ) :
    w'.currentIndex t = w.indexAfter c.op t := by
  cases h with
  | @safeMint msg t' question context a uri rs hzero hmax hfree =>
      by_cases ht : t = t'
      · subst ht
        simp [World.indexAfter]
      · simp [World.indexAfter, ht]
  | replyPrompt _ => rfl
  | burnReplies => rfl
  | burnPrompt => rfl
  | setTokenURI _ => rfl

theorem Step.prompt_eq (h : Step w c w') (q : Prompt) : w'.prompt q = w.slotAfter c q := by
  cases h with
  | @safeMint msg t question context a uri rs hzero hmax hfree =>
      by_cases hq : q = w.nextPrompt t <;> simp [World.slotAfter, hq]
  | @replyPrompt msg p r detail comment signature hadmin =>
      by_cases hq : q = p <;> simp [World.slotAfter, hq]
  | @burnReplies msg p r => by_cases hq : q = p <;> simp [World.slotAfter, hq]
  | @burnPrompt msg p => by_cases hq : q = p <;> simp [World.slotAfter, hq]
  | @setTokenURI msg p uri howner => by_cases hq : q = p <;> simp [World.slotAfter, hq]

/-- The owner lists only ever grow: the loops of a burn remove nothing. -/
theorem Step.count_promptByOwner (h : Step w c w') (hinv : OwnerInv w) (a : Address)
    (p : Prompt) : (w'.promptByOwner a).count p = w.ownedAfter c.op a p := by
  cases h with
  | @safeMint msg t question context b uri rs hzero hmax hfree =>
      by_cases ha : a = b
      · by_cases hp : p = w.nextPrompt t
        · simp [World.ownedAfter, ha, hp]
        · simp [World.ownedAfter, ha, hp, Ne.symm hp]
      · simp [World.ownedAfter, ha]
  | replyPrompt _ => rfl
  | burnReplies => rfl
  | @burnPrompt msg q =>
      -- the owner is cleared before it is looked up, so no list changes
      have hlist := congrFun (hinv.promptBurned_promptByOwner q) a
      exact congrArg (List.count p) hlist
  | setTokenURI _ => rfl

end Laws

/-! ## The unwinding conditions -/

variable {w w' v v' : World} {c : Call} {t : ℕ}

/-- A prompt under the template is not the one that a call under another
template names. -/
theorem ne_of_not_names {p : Prompt} (hp : p.templateId ≠ t) (id : ℕ) :
    (⟨t, id⟩ : Prompt) ≠ p := by
  rintro rfl
  exact hp rfl

/-- Calls under other templates change nothing. -/
theorem Step.agreeOn_of_not_names (h : Step w c w') (hinv : OwnerInv w)
    (hc : c.op.templateId ≠ t) : AgreeOn t w w' := by
  constructor
  case supply =>
    rw [h.currentIndex_eq]
    cases hop : c.op with
    | safeMint t' question context a uri =>
        have ht : t ≠ t' := by
          rintro rfl
          exact hc (by rw [hop]; rfl)
        simp [World.indexAfter, ht]
    | _ => rfl
  case prompt =>
    intro id
    rw [h.prompt_eq]
    unfold World.slotAfter
    cases hop : c.op with
    | safeMint t' question context a uri =>
        have hne := ne_of_not_names (p := w.nextPrompt t') (by rwa [hop] at hc) id
        simp [hne]
    | replyPrompt p r detail comment signature =>
        simp [ne_of_not_names (p := p) (by rwa [hop] at hc) id]
    | burnReplies p r => simp [ne_of_not_names (p := p) (by rwa [hop] at hc) id]
    | burnPrompt p => simp [ne_of_not_names (p := p) (by rwa [hop] at hc) id]
    | setTokenURI p uri => simp [ne_of_not_names (p := p) (by rwa [hop] at hc) id]
  case owned =>
    intro a id
    rw [h.count_promptByOwner hinv]
    cases hop : c.op with
    | safeMint t' question context b uri =>
        have hne := ne_of_not_names (p := w.nextPrompt t') (by rwa [hop] at hc) id
        simp [World.ownedAfter, hne]
    | _ => rfl
  case replied =>
    intro r id
    rw [h.count_replied]
    cases hop : c.op with
    | replyPrompt p s detail comment signature =>
        simp [Op.tally, ne_of_not_names (p := p) (by rwa [hop] at hc) id]
    | burnReplies p s => simp [Op.tally, ne_of_not_names (p := p) (by rwa [hop] at hc) id]
    | _ => rfl

/-- What a user of the template sees after a call is determined by what they saw
before it. -/
theorem Step.agreeOn_of_agreeOn (h : Step w c w') (h' : Step v c v') (hw : OwnerInv w)
    (hv : OwnerInv v) (hagree : AgreeOn t w v) (hc : c.op.templateId = t) : AgreeOn t w' v' := by
  have hnext : w.nextPrompt t = v.nextPrompt t := by
    simp [World.nextPrompt, hagree.supply]
  constructor
  case supply =>
    rw [h.currentIndex_eq, h'.currentIndex_eq]
    unfold World.indexAfter
    simp only [hagree.supply]
  case prompt =>
    intro id
    rw [h.prompt_eq, h'.prompt_eq]
    unfold World.slotAfter
    rw [← hagree.prompt id]
    cases hop : c.op with
    | safeMint t' question context a uri =>
        obtain rfl : t' = t := by rwa [hop] at hc
        simp only [hnext]
    | _ => rfl
  case owned =>
    intro a id
    rw [h.count_promptByOwner hw, h'.count_promptByOwner hv]
    unfold World.ownedAfter
    rw [← hagree.owned a id]
    cases hop : c.op with
    | safeMint t' question context b uri =>
        obtain rfl : t' = t := by rwa [hop] at hc
        simp only [hnext]
    | _ => rfl
  case replied =>
    intro r id
    rw [h.count_replied, h'.count_replied, hagree.replied r id]

theorem unwinding (t : ℕ) : Unwinding dispatch OwnerInv (namesTemplate t) (AgreeOn t) where
  equivalence := agreeOn_equivalence t
  keeps := fun _ _ _ _ hinv hr => (dispatch_step hr).ownerInv hinv
  respects := fun _ _ _ _ hinv hc hr =>
    (dispatch_step hr).agreeOn_of_not_names hinv (of_decide_eq_false hc)
  consistent := fun _ _ _ _ _ _ _ hw hv hagree hc hr hr' =>
    (dispatch_step hr).agreeOn_of_agreeOn (dispatch_step hr') hw hv hagree (of_decide_eq_true hc)

/-! ## Two runs -/

/-- The entries under the template of two lists with the same counts. -/
theorem perm_filter_of_count {ps qs : List Prompt}
    (h : ∀ id, ps.count ⟨t, id⟩ = qs.count ⟨t, id⟩) :
    (ps.filter fun p => p.templateId = t).Perm (qs.filter fun p => p.templateId = t) := by
  rw [List.perm_iff_count]
  rintro ⟨u, id⟩
  by_cases hu : u = t
  · subst hu
    rw [List.count_filter (by simp), List.count_filter (by simp)]
    exact h id
  · rw [List.count_eq_zero.mpr (by simp [hu]), List.count_eq_zero.mpr (by simp [hu])]

/-- **Templates do not interfere.** In two observable worlds whose histories have
the same calls naming the template, the supply of the template, its slots, and
its entries in the lists of all owners and repliers are the same. -/
theorem templates_do_not_interfere {w v : World} (hw : Reachable w) (hv : Reachable v) (t : ℕ)
    (hcalls : w.calls.filter (namesTemplate t) = v.calls.filter (namesTemplate t)) :
    totalSupply t w = totalSupply t v ∧
    (∀ id, w.prompt ⟨t, id⟩ = v.prompt ⟨t, id⟩) ∧
    ∀ a,
      ((queryAllPromptByAddress a w).filter fun p => p.templateId = t).Perm
        ((queryAllPromptByAddress a v).filter fun p => p.templateId = t) ∧
      ((queryAllRepliesByAddress a w).filter fun p => p.templateId = t).Perm
        ((queryAllRepliesByAddress a v).filter fun p => p.templateId = t) := by
  rcases hw.steps effectsFirst with ⟨is, his⟩
  rcases hv.steps effectsFirst with ⟨js, hjs⟩
  have hseen : seen (namesTemplate t) is = seen (namesTemplate t) js := by
    rw [calls_of_steps his, calls_of_steps hjs] at hcalls
    exact hcalls
  have hagree : AgreeOn t w v :=
    (unwinding t).noninterference his hjs ownerInv_init ownerInv_init
      ((agreeOn_equivalence t).refl _) hseen
  refine ⟨hagree.supply, hagree.prompt, ?_⟩
  intro a
  exact ⟨perm_filter_of_count (hagree.owned a), perm_filter_of_count (hagree.replied a)⟩

/-- Prompt 1 of template 7 with a reply, without and with a prompt 1 of another
template that is replied to as well and burned. -/
def quietTxs : List Tx :=
  [callTx alice 1 (.safeMint 7 "q" "c" alice "u"),
    callTx ADMIN 2 (.replyPrompt ⟨7, 1⟩ bob "a" "" "")]

def noisyTxs : List Tx :=
  [callTx alice 1 (.safeMint 8 "q" "c" alice "u"), callTx alice 1 (.safeMint 7 "q" "c" alice "u"),
    callTx ADMIN 2 (.replyPrompt ⟨8, 1⟩ bob "a" "" ""),
    callTx ADMIN 2 (.replyPrompt ⟨7, 1⟩ bob "a" "" ""),
    callTx carol 3 (.burnReplies ⟨8, 1⟩ bob), callTx carol 4 (.burnPrompt ⟨8, 1⟩)]

theorem templates_do_not_interfere_noisy :
    totalSupply 7 (worldAfter quietTxs) = totalSupply 7 (worldAfter noisyTxs) ∧
    (worldAfter quietTxs).prompt ⟨7, 1⟩ = (worldAfter noisyTxs).prompt ⟨7, 1⟩ := by
  have h := templates_do_not_interfere (reachable_worldAfter quietTxs)
    (reachable_worldAfter noisyTxs) 7 (by decide +kernel)
  exact ⟨h.1, h.2.1 1⟩

end Yes3.LyonPrompt
