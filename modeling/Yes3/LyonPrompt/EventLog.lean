import Yes3.Rules.Register
import Yes3.LyonPrompt.Minting

/-!
# Yes3.LyonPrompt.EventLog — what the events tell

Whoever follows the events of the prompt contract does not see the calls. The
events are enough for the lists of the owners, the balances and the supplies, which
are the announcements of the mints and nothing else. They are not enough for the
replies and the owners, since no burn is announced. But nothing is shown that was
not announced: every owner and every reply on record is that of an event, and an
event about a reply names nobody as the owner of a prompt whose mint to that
account it does not follow.
-/

namespace Yes3.LyonPrompt

/-- The prompt, if the event announces a mint to the account. -/
def announcesTo (a : Address) : Event → Option Prompt
  | .promptMinted t id b => if b = a then some ⟨t, id⟩ else none
  | .repliedToPrompt .. => none

/-- The event announces the reply. -/
def Event.Announces (p : Prompt) (replier : Address) (info : ReplyInfo) (e : Event) : Prop :=
  ∃ owner question, e = .repliedToPrompt p.templateId p.id owner question replier
    info.replyDetail info.comment info.signature info.createTime

/-- The event announces the mint of the prompt to the account. -/
def announcement (p : Prompt) (a : Address) : Event :=
  .promptMinted p.templateId p.id a

/-! ## The invariant -/

/-- Nothing is on record that was not announced. -/
structure AnnouncedInv (w : World) : Prop where
  listed : ∀ a, w.promptByOwner a = w.events.filterMap (announcesTo a)
  owned : ∀ p, (w.prompt p).promptOwner ≠ zeroAddress →
    announcement p (w.prompt p).promptOwner ∈ w.events
  replied : ∀ p r, (w.prompt p).replies r ≠ ReplyInfo.blank →
    ∃ e ∈ w.events, e.Announces p r ((w.prompt p).replies r)
  /-- The owner that an event about a reply names was announced before. -/
  named : ∀ pre post t id owner question r detail comment signature time,
    w.events = pre ++ .repliedToPrompt t id owner question r detail comment signature time :: post →
    owner ≠ zeroAddress → announcement ⟨t, id⟩ owner ∈ pre

theorem announcedInv_init : AnnouncedInv World.init where
  listed := fun _ => rfl
  owned := fun _ h => absurd rfl h
  replied := fun _ _ h => absurd rfl h
  named := fun pre _ _ _ _ _ _ _ _ _ _ h =>
    absurd h.symm (List.append_ne_nil_of_right_ne_nil pre (List.cons_ne_nil _ _))

variable {w w' : World} {c : Call}

/-- A call that emits no event and puts nothing on record. -/
theorem AnnouncedInv.of_silent (h : AnnouncedInv w) (hevents : w'.events = w.events)
    (hlists : w'.promptByOwner = w.promptByOwner)
    (howner : ∀ p, (w'.prompt p).promptOwner = (w.prompt p).promptOwner ∨
      (w'.prompt p).promptOwner = zeroAddress)
    (hreplies : ∀ p r, (w'.prompt p).replies r = (w.prompt p).replies r ∨
      (w'.prompt p).replies r = ReplyInfo.blank) : AnnouncedInv w' where
  listed := by rw [hevents, hlists]; exact h.listed
  owned := by
    intro p hp
    rw [hevents, (howner p).resolve_right hp]
    exact h.owned p ((howner p).resolve_right hp ▸ hp)
  replied := by
    intro p r hr
    rw [hevents, (hreplies p r).resolve_right hr]
    exact h.replied p r ((hreplies p r).resolve_right hr ▸ hr)
  named := by rw [hevents]; exact h.named

/-- A mint announces the owner that it puts on record. -/
theorem AnnouncedInv.minted (h : AnnouncedInv w) (msg : Msg) (t : ℕ) (question context : String)
    (a : Address) (uri : String) : AnnouncedInv (w.minted msg t question context a uri) where
  listed := by
    intro b
    by_cases hb : b = a
    · subst hb
      simp [announcesTo, h.listed, World.nextPrompt]
    · simp [announcesTo, hb, Ne.symm hb, h.listed]
  owned := by
    intro p hp
    rw [promptOwner_minted] at hp ⊢
    by_cases hpn : p = w.nextPrompt t
    · simp [hpn, announcement, World.nextPrompt]
    · rw [if_neg hpn] at hp ⊢
      exact List.mem_append_left _ (h.owned p hp)
  replied := by
    intro p r hr
    have hsame := update_keeps (f := w.prompt) (a := w.nextPrompt t)
      (b := { w.prompt (w.nextPrompt t) with
        promptOwner := a, question := question, context := context,
        createTime := msg.timestamp, SBTURI := uri })
      (fun info : PromptInfo => info.replies r) (by rfl) p
    simp only [World.minted] at hr ⊢
    rw [hsame] at hr ⊢
    obtain ⟨e, he, hann⟩ := h.replied p r hr
    exact ⟨e, List.mem_append_left _ he, hann⟩
  named := by
    intro pre post u id owner q r detail comment signature time hsplit hne
    rcases Register.of_snoc_eq_split hsplit with ⟨_, hlast⟩ | ⟨post', _, hold⟩
    · cases hlast
    · exact h.named pre post' u id owner q r detail comment signature time hold hne

/-- A reply announces itself. -/
theorem AnnouncedInv.replied_step (h : AnnouncedInv w) (msg : Msg) (p : Prompt) (r : Address)
    (detail comment signature : String) :
    AnnouncedInv (w.replied msg p r detail comment signature) := by
  have howner : ∀ q, ((w.replied msg p r detail comment signature).prompt q).promptOwner =
      (w.prompt q).promptOwner := fun q => update_keeps PromptInfo.promptOwner (by rfl) q
  constructor
  case listed =>
    intro a
    simp [announcesTo, h.listed]
  case owned =>
    intro q hq
    rw [howner] at hq ⊢
    exact List.mem_append_left _ (h.owned q hq)
  case replied =>
    intro q s hs
    by_cases hqs : q = p ∧ s = r
    · -- the reply that was just made
      obtain ⟨rfl, rfl⟩ := hqs
      refine ⟨_, List.mem_append_right _ (List.mem_singleton_self _),
        (w.prompt q).promptOwner, (w.prompt q).question, ?_⟩
      simp
    · have hold : ((w.replied msg p r detail comment signature).prompt q).replies s =
          (w.prompt q).replies s := by
        by_cases hq : q = p
        · subst hq
          have hs' : s ≠ r := fun hs' => hqs ⟨rfl, hs'⟩
          simp [hs']
        · simp [hq]
      rw [hold] at hs ⊢
      obtain ⟨e, he, hann⟩ := h.replied q s hs
      exact ⟨e, List.mem_append_left _ he, hann⟩
  case named =>
    intro pre post u id owner q s detail' comment' signature' time hsplit hne
    rcases Register.of_snoc_eq_split hsplit with ⟨rfl, hlast⟩ | ⟨post', _, hold⟩
    · -- it names the owner on record, who was announced
      obtain ⟨rfl, rfl, rfl, _⟩ := Event.repliedToPrompt.inj hlast
      exact h.owned p hne
    · exact h.named pre post' u id owner q s detail' comment' signature' time hold hne

/-- Every call keeps the invariant. -/
theorem Step.announcedInv (hstep : Step w c w') (hinv : OwnerInv w) (h : AnnouncedInv w) :
    AnnouncedInv w' := by
  have howner := hstep.promptOwner_eq
  have hreplies := hstep.replies_eq
  cases hstep with
  | @safeMint msg t question context a uri rs hzero hmax hfree =>
      have hm := h.minted msg t question context a uri
      exact ⟨hm.listed, hm.owned, hm.replied, hm.named⟩
  | @replyPrompt msg p r detail comment signature hadmin =>
      have hr := h.replied_step msg p r detail comment signature
      exact ⟨hr.listed, hr.owned, hr.replied, hr.named⟩
  | @burnReplies msg p r =>
      refine h.of_silent rfl rfl (fun q => Or.inl (howner q)) ?_
      intro q s
      rw [hreplies]
      by_cases hqs : q = p ∧ s = r
      · exact Or.inr (if_pos hqs)
      · exact Or.inl (if_neg hqs)
  | @burnPrompt msg p =>
      refine h.of_silent rfl (hinv.promptBurned_promptByOwner p) ?_
        (fun q s => Or.inl (hreplies q s))
      intro q
      by_cases hq : q = p
      · exact Or.inr ((howner q).trans (if_pos hq))
      · exact Or.inl ((howner q).trans (if_neg hq))
  | setTokenURI _ =>
      exact h.of_silent rfl rfl (fun q => Or.inl (howner q)) (fun q s => Or.inl (hreplies q s))

theorem Reachable.announcedInv (h : Reachable w) : AnnouncedInv w :=
  ReachableFrom.induction announcedInv_init
    (fun _ _ _ hr hi _ hs => hs.announcedInv (Reachable.ownerInv hr) hi) h

/-! ## The views -/

/-- **The event log covers the views.** In every world that outside code can
observe: the lists, the balances and the supplies are those of the announcements;
whoever is shown as the owner of a prompt was announced as such; every reply that is
shown and not blank was announced as it is shown; and an event about a reply names
an owner only if the mint to that owner was announced before. -/
theorem event_log_covers_views (h : Reachable w) :
    (∀ a, queryAllPromptByAddress a w = w.events.filterMap (announcesTo a)) ∧
    (∀ a, a ≠ zeroAddress →
      balanceOf a w = .ok (w.events.filterMap (announcesTo a)).length) ∧
    (∀ t, totalSupply t w = (mintedUnder t w).length) ∧
    (∀ p, (queryPromptInfoById p w).1 ≠ zeroAddress →
      announcement p (queryPromptInfoById p w).1 ∈ w.events) ∧
    (∀ p infos, queryAllRepliesByPrompt p w = .ok infos →
      ∀ info ∈ infos, info ≠ ReplyInfo.blank → ∃ r, ∃ e ∈ w.events, e.Announces p r info) ∧
    ∀ pre post t id owner question r detail comment signature time,
      w.events =
        pre ++ .repliedToPrompt t id owner question r detail comment signature time :: post →
      owner ≠ zeroAddress → announcement ⟨t, id⟩ owner ∈ pre := by
  have hinv := h.announcedInv
  refine ⟨hinv.listed, ?_, ?_, hinv.owned, ?_, hinv.named⟩
  · intro a ha
    rw [← hinv.listed]
    exact require_bind_of_pos ha _ _
  · intro t
    rw [h.mintInv.ids, List.length_zipIdx]
    exact h.mintInv.counter t
  · intro p infos hinfos info hinfo hne
    obtain rfl := Except.ok.inj ((queryAllRepliesByPrompt_eq p w).symm.trans hinfos)
    obtain ⟨r, _, rfl⟩ := List.mem_map.mp hinfo
    exact ⟨r, hinv.replied p r hne⟩

theorem event_log_covers_views_nested :
    queryAllPromptByAddress bob (worldAfter nestedMintTxs) =
      (worldAfter nestedMintTxs).events.filterMap (announcesTo bob) :=
  (event_log_covers_views (reachable_worldAfter nestedMintTxs)).1 bob

end Yes3.LyonPrompt
