import Yes3.Rules.Register
import Yes3.LyonPrompt.Registry

/-!
# Yes3.LyonPrompt.Provenance — where the record of a prompt comes from

The record that the views show of a prompt is accounted for by the history: its
owner, its texts and its time are those of the mint that was given its number, and
its URI is the last one that its owner has set since, or that of the mint. After a
burn there is no record.

The proof is one about the registry (`slips_accounted`); the contract has its
records from there.

* `prompt_provenance`: the views, for every prompt, in terms of the history.
* `creation_times_increase`: under a template, later numbers have later times, as
  long as the clock of the chain does not run backwards.
-/

namespace Yes3.LyonPrompt

open CallTree Replay

/-- The URI that the call sets for the prompt, if it sets one. -/
def Call.setsUri (p : Prompt) (c : Call) : Option String :=
  match c.op with
  | .setTokenURI q uri => if q = p then some uri else none
  | _ => none

/-- The call, made after the calls `pre`, mints `p` with the texts, the owner and the
time of the slip. -/
def MintsSlip (pre : List Call) (c : Call) (p : Prompt) (slip : Slip) (uri : String) : Prop :=
  c.op = .safeMint p.templateId slip.question slip.context slip.owner uri ∧
    c.msg.timestamp = slip.createTime ∧
    (pre.filterMap (mintOf p.templateId)).length + 1 = p.id

/-- The history accounts for the slip: the prompt was minted with it and not burned
since, and its URI was set by its owner only. -/
def SlipProvenance (calls : List Call) (p : Prompt) (slip : Slip) : Prop :=
  ∃ pre c post uri, calls = pre ++ c :: post ∧ MintsSlip pre c p slip uri ∧
    (∀ d ∈ post, d.op ≠ .burnPrompt p) ∧
    (∀ d ∈ post, d.setsUri p ≠ none → d.msg.sender = slip.owner) ∧
    slip.uri = Register.after (Call.setsUri p) uri post

section Snoc

variable {calls : List Call} {c : Call} {p : Prompt} {slip : Slip}

/-- What one more call does to the slip of a prompt. -/
def Slip.edited (c : Call) (p : Prompt) (slip : Slip) : Slip :=
  { slip with uri := (c.setsUri p).getD slip.uri }

/-- One more call: the mint of the prompt, or any call but its burn. -/
theorem slipProvenance_snoc : SlipProvenance (calls ++ [c]) p slip ↔
    MintsSlip calls c p slip slip.uri ∨
      ∃ old, SlipProvenance calls p old ∧ c.op ≠ .burnPrompt p ∧
        (c.setsUri p ≠ none → c.msg.sender = old.owner) ∧ slip = old.edited c p := by
  constructor
  · rintro ⟨pre, d, post, uri, hcalls, hmints, hburn, hset, huri⟩
    rcases List.eq_nil_or_concat' post with rfl | ⟨post, e, rfl⟩
    · obtain ⟨rfl, hcd⟩ := List.append_inj' hcalls rfl
      obtain rfl : c = d := by simpa using hcd
      obtain rfl : slip.uri = uri := huri
      exact Or.inl hmints
    · rw [← List.cons_append, ← List.append_assoc] at hcalls
      obtain ⟨rfl, hce⟩ := List.append_inj' hcalls rfl
      obtain rfl : c = e := by simpa using hce
      -- the slip before the call has the URI that was set until then
      refine Or.inr ⟨{ slip with uri := Register.after (Call.setsUri p) uri post },
        ⟨pre, d, post, uri, rfl, hmints, ?_, ?_, rfl⟩, hburn c (by simp), hset c (by simp), ?_⟩
      · intro d' hd'
        exact hburn d' (List.mem_append_left _ hd')
      · intro d' hd'
        exact hset d' (List.mem_append_left _ hd')
      · rw [Register.after_snoc] at huri
        rw [Slip.edited, ← huri]
  · rintro (hmints | ⟨old, ⟨pre, d, post, uri, rfl, hmints, hburn, hset, huri⟩, hc, hsender, rfl⟩)
    · exact ⟨calls, c, [], slip.uri, rfl, hmints, fun d hd => absurd hd List.not_mem_nil,
        fun d hd => absurd hd List.not_mem_nil, rfl⟩
    · refine ⟨pre, d, post ++ [c], uri, by simp, hmints, ?_, ?_, ?_⟩
      · intro d' hd'
        rcases List.mem_append.mp hd' with hold | hnew
        · exact hburn d' hold
        · exact List.mem_singleton.mp hnew ▸ hc
      · intro d' hd'
        rcases List.mem_append.mp hd' with hold | hnew
        · exact hset d' hold
        · rw [List.mem_singleton.mp hnew]
          exact hsender
      · rw [Register.after_snoc, ← huri]
        rfl

/-- A call that has nothing to do with the prompt leaves its slip as it is. -/
theorem slipProvenance_snoc_of_quiet (hmint : mintOf p.templateId c = none)
    (hburn : c.op ≠ .burnPrompt p) (hset : c.setsUri p = none) :
    SlipProvenance (calls ++ [c]) p slip ↔ SlipProvenance calls p slip := by
  have hmints : ¬ MintsSlip calls c p slip slip.uri := by
    rintro ⟨hop, _⟩
    simp [mintOf, hop] at hmint
  have hedited : ∀ old : Slip, old.edited c p = old := by
    intro old
    simp [Slip.edited, hset]
  rw [slipProvenance_snoc]
  constructor
  · rintro (h | ⟨old, hold, _, _, rfl⟩)
    · exact absurd h hmints
    · exact (hedited old).symm ▸ hold
  · intro h
    exact Or.inr ⟨slip, h, hburn, fun hne => absurd hset hne, (hedited slip).symm⟩

end Snoc

/-! ## The slips of the registry -/

/-- The registry keeps the slips that the history accounts for, and no others. -/
structure SlipsInv (calls : List Call) (r : Registry) : Prop where
  counter : ∀ t, r.issued t = (calls.filterMap (mintOf t)).length
  bound : ∀ p slip, r.live p = some slip → p.id ≤ r.issued p.templateId
  accounted : ∀ p slip, SlipProvenance calls p slip ↔ r.live p = some slip

theorem slipsInv_init : SlipsInv [] {} where
  counter := fun _ => rfl
  bound := fun _ _ h => nomatch h
  accounted := by
    intro p slip
    constructor
    · rintro ⟨pre, c, post, uri, hcalls, _⟩
      exact absurd hcalls.symm (List.append_ne_nil_of_right_ne_nil pre (List.cons_ne_nil c post))
    · intro h
      cases h

section Step

variable {calls : List Call} {r r' : Registry}

/-- A call that issues nothing leaves the counter alone. -/
theorem SlipsInv.counter_snoc (h : SlipsInv calls r) {c : Call} (hissued : r'.issued = r.issued)
    (hmint : ∀ t, mintOf t c = none) (t : ℕ) :
    r'.issued t = ((calls ++ [c]).filterMap (mintOf t)).length := by
  rw [hissued, h.counter]
  simp [hmint]

/-- Only the slot that is next is minted. -/
theorem SlipsInv.mintsSlip_iff (h : SlipsInv calls r) {msg : Msg} {t : ℕ}
    {question context : String} {a : Address} {uri uri' : String} {p : Prompt} {slip : Slip} :
    MintsSlip calls ⟨msg, .safeMint t question context a uri⟩ p slip uri' ↔
      p = r.next t ∧ slip = ⟨a, question, context, msg.timestamp, slip.uri⟩ ∧ uri = uri' := by
  rcases p with ⟨u, id⟩
  rcases slip with ⟨owner, q, ctx, time, uri''⟩
  have hcount := h.counter u
  simp only [MintsSlip, Registry.next, Op.safeMint.injEq, Prompt.mk.injEq, Slip.mk.injEq, and_true,
    ← hcount]
  constructor
  · rintro ⟨⟨rfl, rfl, rfl, rfl, rfl⟩, rfl, rfl⟩
    exact ⟨⟨rfl, rfl⟩, ⟨rfl, rfl, rfl, rfl⟩, rfl⟩
  · rintro ⟨⟨rfl, rfl⟩, ⟨rfl, rfl, rfl, rfl⟩, rfl⟩
    exact ⟨⟨rfl, rfl, rfl, rfl, rfl⟩, rfl, rfl⟩

/-- A mint makes the slip of the slot that is next. -/
theorem SlipsInv.issue (h : SlipsInv calls r) (msg : Msg) (t : ℕ) (question context : String)
    (a : Address) (uri : String) :
    SlipsInv (calls ++ [⟨msg, .safeMint t question context a uri⟩])
      (r.issue msg t question context a uri) where
  counter := by
    intro u
    by_cases hu : t = u
    · subst hu
      simp [Registry.issue, mintOf, h.counter]
    · simp [Registry.issue, mintOf, hu, Ne.symm hu, h.counter]
  bound := by
    intro p slip hlive
    by_cases hp : p = r.next t
    · subst hp
      simp [Registry.issue, Registry.next]
    · have hold : r.live p = some slip := by simpa [Registry.issue, hp] using hlive
      have hle := h.bound p slip hold
      by_cases hu : p.templateId = t
      · simp only [Registry.issue, hu, Function.update_self]
        rw [hu] at hle
        omega
      · simpa [Registry.issue, hu] using hle
  accounted := by
    intro p slip
    rw [slipProvenance_snoc, h.mintsSlip_iff]
    by_cases hp : p = r.next t
    · subst hp
      -- the number is new, so there was no slip
      have hnone : ∀ old, ¬ SlipProvenance calls (r.next t) old := by
        intro old hold
        have hle := h.bound _ old ((h.accounted _ old).mp hold)
        simp only [Registry.next] at hle
        omega
      simp only [Registry.issue, Function.update_self, Option.some.injEq, true_and]
      constructor
      · rintro (⟨hslip, rfl⟩ | ⟨old, hold, _⟩)
        · exact hslip.symm
        · exact absurd hold (hnone old)
      · rintro rfl
        exact Or.inl ⟨rfl, rfl⟩
    · have hlive : (r.issue msg t question context a uri).live p = r.live p := by
        simp [Registry.issue, hp]
      rw [hlive, ← h.accounted]
      constructor
      · rintro (⟨hnext, _⟩ | ⟨old, hold, _, _, rfl⟩)
        · exact absurd hnext hp
        · exact hold
      · intro hold
        exact Or.inr ⟨slip, hold, by simp, fun hne => absurd rfl hne, rfl⟩

/-- The burn of a prompt takes its slip away. -/
theorem SlipsInv.withdraw (h : SlipsInv calls r) (msg : Msg) (q : Prompt) :
    SlipsInv (calls ++ [⟨msg, .burnPrompt q⟩]) (r.withdraw q) where
  counter := h.counter_snoc rfl fun _ => rfl
  bound := by
    intro p slip hlive
    by_cases hp : p = q
    · simp [Registry.withdraw, hp] at hlive
    · exact h.bound p slip (by simpa [Registry.withdraw, hp] using hlive)
  accounted := by
    intro p slip
    by_cases hp : p = q
    · subst hp
      rw [slipProvenance_snoc]
      simp [MintsSlip, Registry.withdraw]
    · rw [slipProvenance_snoc_of_quiet rfl (by simp [Ne.symm hp]) rfl, h.accounted]
      simp [Registry.withdraw, hp]

/-- The owner of a prompt edits its slip. -/
theorem SlipsInv.edit (h : SlipsInv calls r) {msg : Msg} {q : Prompt} {uri : String} {old : Slip}
    (hold : r.live q = some old) (howner : old.owner = msg.sender) :
    SlipsInv (calls ++ [⟨msg, .setTokenURI q uri⟩]) (r.edit q { old with uri := uri }) where
  counter := h.counter_snoc rfl fun _ => rfl
  bound := by
    intro p slip hlive
    by_cases hp : p = q
    · subst hp
      exact h.bound p old hold
    · exact h.bound p slip (by simpa [Registry.edit, hp] using hlive)
  accounted := by
    intro p slip
    by_cases hp : p = q
    · subst hp
      rw [slipProvenance_snoc]
      simp only [Registry.edit, Function.update_self, Option.some.injEq]
      constructor
      · rintro (⟨hop, _⟩ | ⟨old', hold', _, _, rfl⟩)
        · cases hop
        · obtain rfl : old = old' := Option.some.inj (hold.symm.trans ((h.accounted _ _).mp hold'))
          simp [Slip.edited, Call.setsUri]
      · rintro rfl
        refine Or.inr ⟨old, (h.accounted _ _).mpr hold, by simp, fun _ => howner.symm, ?_⟩
        simp [Slip.edited, Call.setsUri]
    · rw [slipProvenance_snoc_of_quiet rfl (by simp) (by simp [Call.setsUri, Ne.symm hp]),
        h.accounted]
      simp [Registry.edit, hp]

/-- Every call that the registry takes keeps the slips accounted for. -/
theorem SlipsInv.step (h : SlipsInv calls r) {c : Call} (hstep : r.step c = some r') :
    SlipsInv (calls ++ [c]) r' := by
  -- a call that leaves the slips alone
  have hquiet : ∀ {c : Call} {r' : Registry}, (∀ t, mintOf t c = none) →
      (∀ p, c.op ≠ .burnPrompt p) → (∀ p, c.setsUri p = none) → r'.issued = r.issued →
      r'.live = r.live → SlipsInv (calls ++ [c]) r' := by
    intro c r' hmint hburn hset hissued hlive
    refine ⟨h.counter_snoc hissued hmint, ?_, ?_⟩
    · rw [hissued, hlive]
      exact h.bound
    · intro p slip
      rw [slipProvenance_snoc_of_quiet (hmint _) (hburn p) (hset p), hlive]
      exact h.accounted p slip
  rcases c with ⟨msg, op⟩
  cases op with
  | safeMint t question context a uri =>
      obtain ⟨_, hr⟩ := Option.ite_none_right_eq_some.mp hstep
      obtain rfl := Option.some.inj hr
      exact h.issue msg t question context a uri
  | replyPrompt p replier detail comment signature =>
      obtain ⟨_, hr⟩ := Option.ite_none_right_eq_some.mp hstep
      obtain rfl := Option.some.inj hr
      exact hquiet (fun _ => rfl) (fun _ => nofun) (fun _ => rfl) rfl rfl
  | burnReplies p replier =>
      obtain rfl := Option.some.inj hstep
      exact hquiet (fun _ => rfl) (fun _ => nofun) (fun _ => rfl) rfl rfl
  | burnPrompt p =>
      obtain rfl := Option.some.inj hstep
      exact h.withdraw msg p
  | setTokenURI p uri =>
      cases hlive : r.live p with
      | none => simp [Registry.step, hlive] at hstep
      | some old =>
          rw [Registry.step_setTokenURI hlive] at hstep
          obtain ⟨howner, hr⟩ := Option.ite_none_right_eq_some.mp hstep
          obtain rfl := Option.some.inj hr
          exact h.edit hlive howner

end Step

/-- **Every slip is accounted for**, after every legal log. -/
theorem slips_accounted {calls : List Call} {r : Registry}
    (h : replay Registry.step {} calls = some r) : SlipsInv calls r :=
  replay_invariant slipsInv_init (fun _ _ _ _ hinv hstep => hinv.step hstep) h

/-! ## The contract -/

/-- **Provenance of the record of a prompt.** In every world that outside code can
observe, with no call sent by the zero address: the views show of a prompt what the
history accounts for, which is at most one record, and otherwise nothing; and
whoever is shown as the owner of a prompt has such a record. -/
theorem prompt_provenance {w : World} (h : ReachableVia SenderNonzero w) (p : Prompt) :
    (∀ slip, SlipProvenance w.calls p slip →
      queryPromptInfoById p w =
        (slip.owner, slip.question, slip.context, slip.uri, slip.createTime) ∧
      tokenURI p w = slip.uri ∧ p ∈ queryAllPromptByAddress slip.owner w) ∧
    ((∀ slip, ¬ SlipProvenance w.calls p slip) →
      queryPromptInfoById p w = (zeroAddress, "", "", "", 0) ∧ tokenURI p w = "") ∧
    ((queryPromptInfoById p w).1 ≠ zeroAddress → ∃ slip, SlipProvenance w.calls p slip) := by
  have hshows := shows_registry (unownedBlank_of_reachable h)
  have hinv := slips_accounted (replay_registry h)
  refine ⟨?_, ?_, ?_⟩
  · intro slip hslip
    have hlive := (hinv.accounted p slip).mp hslip
    have howner : (w.prompt p).promptOwner = slip.owner := by
      have hread : (w.prompt p).promptOwner = _ := promptOwner_eq_slip
      rw [hread, show (w.prompt p).slip = some slip from hlive]
      rfl
    have hne : (w.prompt p).promptOwner ≠ zeroAddress := by
      intro hzero
      cases (slip_eq_none_iff.mpr hzero).symm.trans hlive
    refine ⟨?_, ?_, ?_⟩
    · rw [hshows.promptInfo, hlive]
    · rw [hshows.tokenURI, hlive]
      rfl
    · have hlisted := h.reachable.ownerInv.listed p hne
      rwa [howner] at hlisted
  · intro hnone
    have hlive : w.registry.live p = none := by
      cases hslip : w.registry.live p with
      | none => rfl
      | some slip => exact absurd ((hinv.accounted p slip).mpr hslip) (hnone slip)
    rw [hshows.promptInfo, hshows.tokenURI, hlive]
    exact ⟨rfl, rfl⟩
  · intro hlive
    exact ⟨_, (hinv.accounted p _).mpr (slip_of_live hlive)⟩

/-- In a log split twice, the split with fewer mints before it comes first. -/
theorem mem_of_fewer_mints {calls pre post pre' post' : List Call} {c c' : Call} {t : ℕ}
    (hsplit : calls = pre ++ c :: post) (hsplit' : calls = pre' ++ c' :: post')
    (hlt : (pre.filterMap (mintOf t)).length < (pre'.filterMap (mintOf t)).length) :
    c ∈ pre' := by
  rw [hsplit] at hsplit'
  rcases List.append_eq_append_iff.mp hsplit' with ⟨mid, rfl, hmid⟩ | ⟨mid, rfl, _⟩
  · cases mid with
    | nil => simp at hlt
    | cons d mid =>
        obtain ⟨rfl, _⟩ := List.cons_eq_cons.mp hmid
        simp
  · simp only [List.filterMap_append, List.length_append] at hlt
    omega

/-- **Prompts are numbered in the order of their creation times**: of two prompts of
a template the later number has the later time, or the same, if the clock of the
chain never ran backwards. -/
theorem creation_times_increase {w : World} (h : ReachableVia SenderNonzero w)
    (hclock : w.calls.Pairwise fun c d => c.msg.timestamp ≤ d.msg.timestamp) {t id id' : ℕ}
    (hlive : (w.prompt ⟨t, id⟩).promptOwner ≠ zeroAddress)
    (hlive' : (w.prompt ⟨t, id'⟩).promptOwner ≠ zeroAddress) (hle : id ≤ id') :
    (w.prompt ⟨t, id⟩).createTime ≤ (w.prompt ⟨t, id'⟩).createTime := by
  rcases Nat.eq_or_lt_of_le hle with rfl | hlt
  · exact Nat.le_refl _
  · have hinv := slips_accounted (replay_registry h)
    obtain ⟨pre, c, post, uri, hsplit, ⟨_, htime, hcount⟩, _⟩ :=
      (hinv.accounted ⟨t, id⟩ _).mpr (slip_of_live hlive)
    obtain ⟨pre', c', post', uri', hsplit', ⟨_, htime', hcount'⟩, _⟩ :=
      (hinv.accounted ⟨t, id'⟩ _).mpr (slip_of_live hlive')
    -- the mint with the smaller number was made first
    have hfirst : c ∈ pre' := by
      refine mem_of_fewer_mints (t := t) hsplit hsplit' ?_
      change (pre.filterMap (mintOf t)).length + 1 = id at hcount
      change (pre'.filterMap (mintOf t)).length + 1 = id' at hcount'
      omega
    rw [hsplit'] at hclock
    have horder := (List.pairwise_append.mp hclock).2.2 c hfirst c' List.mem_cons_self
    rwa [htime, htime'] at horder

/-- Alice mints a prompt and changes its URI, and Bob mints one. -/
def editTxs : List Tx :=
  [callTx alice 1 (.safeMint 0 "q" "c" alice "u"), callTx alice 2 (.setTokenURI ⟨0, 1⟩ "v"),
    callTx bob 3 (.safeMint 0 "r" "d" bob "w")]

theorem reachableVia_editTxs : ReachableVia SenderNonzero (worldAfter editTxs) :=
  reachableVia_worldAfter ⟨meets_callTx (show alice ≠ zeroAddress by decide),
    meets_callTx (show alice ≠ zeroAddress by decide),
    meets_callTx (show bob ≠ zeroAddress by decide), trivial⟩

theorem prompt_provenance_after_edit :
    queryPromptInfoById ⟨0, 1⟩ (worldAfter editTxs) = (alice, "q", "c", "v", 1) := by
  refine ((prompt_provenance reachableVia_editTxs ⟨0, 1⟩).1 ⟨alice, "q", "c", 1, "v"⟩ ?_).1
  refine ⟨[], ⟨⟨alice, 1⟩, .safeMint 0 "q" "c" alice "u"⟩,
    [⟨⟨alice, 2⟩, .setTokenURI ⟨0, 1⟩ "v"⟩, ⟨⟨bob, 3⟩, .safeMint 0 "r" "d" bob "w"⟩], "u",
    by decide +kernel, ⟨rfl, rfl, rfl⟩, ?_, ?_, rfl⟩
  · simp
  · simp [Call.setsUri]

theorem creation_times_increase_after_edit :
    ((worldAfter editTxs).prompt ⟨0, 1⟩).createTime ≤
      ((worldAfter editTxs).prompt ⟨0, 2⟩).createTime := by
  refine creation_times_increase reachableVia_editTxs ?_ (by decide +kernel) (by decide +kernel)
    (by decide)
  have hcalls : (worldAfter editTxs).calls = [⟨⟨alice, 1⟩, .safeMint 0 "q" "c" alice "u"⟩,
      ⟨⟨alice, 2⟩, .setTokenURI ⟨0, 1⟩ "v"⟩, ⟨⟨bob, 3⟩, .safeMint 0 "r" "d" bob "w"⟩] := by
    decide +kernel
  rw [hcalls]
  simp

end Yes3.LyonPrompt
